import FlowerRoute.Verif.Frames

/-!
# The functions on rules are sequences of effects

One lemma for each function, from those of the functions that it calls. They rest on an invariant
of the effects, which the world they start from has.
-/

namespace FlowerRoute

open Outcome

/-- An invariant of the effects under which the world is sound. -/
structure Keeps (inv : Ghost → World → Prop) : Prop where
  sound : ∀ {g : Ghost} {w : World}, inv g w → Sound g w
  kept : ∀ {g : Ghost} {w : World} {g' : Ghost} {w' : World}, inv g w → Effect g w g' w' →
    inv g' w'

/-- A function whose effects lead from one ghost to another. -/
def Does (inv : Ghost → World → Prop) (held : Held) (g : Ghost) (w : World) (g' : Ghost)
    (result : Except Fault World) : Prop :=
  inv g w → Ends Admitted (Effects held g w g') result

/-- The functions under way hold a part, and have nothing to go on with. -/
structure Held.Ready (held : Held) (g : Ghost) : Prop extends held.Within g where
  free : g.Free

section Ghosts

variable {held : Held} {g : Ghost}

theorem Held.Within.lend (within : held.Within g) (r : RuleId) : held.Within (g.lend r) :=
  ⟨le_trans within.loans (Multiset.le_cons_self _ _), within.installing⟩

theorem Held.Within.ask (within : held.Within g) (task : Task) : held.Within (g.ask task) :=
  ⟨within.loans, within.installing⟩

theorem Held.Within.next (within : held.Within g) (task : Option Task) :
    held.Within (g.next task) :=
  ⟨within.loans, within.installing⟩

theorem Held.Within.opens (within : held.Within g) (routes : Multiset RouteId) :
    held.Within (g.opens routes) :=
  ⟨within.loans, within.installing⟩

theorem Held.Within.run (within : held.Within g) (routes : Nat) : held.Within (g.run routes) :=
  ⟨within.loans, within.installing⟩

theorem Held.Within.install (within : held.Within g) (i : Installing) :
    held.Within (g.install i) :=
  ⟨within.loans, le_trans within.installing (Multiset.le_cons_self _ _)⟩

theorem Held.Ready.lend (ready : held.Ready g) (r : RuleId) : held.Ready (g.lend r) :=
  ⟨ready.toWithin.lend r, ready.free⟩

theorem Held.Ready.run (ready : held.Ready g) (routes : Nat) : held.Ready (g.run routes) :=
  ⟨ready.toWithin.run routes, ready.free⟩

theorem Held.Ready.opens (ready : held.Ready g) (routes : Multiset RouteId) :
    held.Ready (g.opens routes) :=
  ⟨ready.toWithin.opens routes, ready.free⟩

theorem Held.Ready.install (ready : held.Ready g) (i : Installing) :
    held.Ready (g.install i) :=
  ⟨ready.toWithin.install i, ready.free⟩

/-- Nothing to go on with is nothing new. -/
theorem Ghost.next_none (free : g.Free) : g.next none = g := by
  rw [Ghost.Free] at free
  rw [Ghost.next, ← free]

end Ghosts

section Sequences

variable {inv : Ghost → World → Prop} {held : Held} {g g' g'' : Ghost} {w w' : World}

/-- Effects keep an invariant. -/
theorem Effects.kept (effects : Effects held g w g' w') (keeps : Keeps inv) (before : inv g w) :
    inv g' w' :=
  effects.induct inv before fun _ _ _ _ _ _ kept effect => keeps.kept kept effect

/-- Effects that keep more keep less. -/
theorem Effects.weaken {more : Held} (effects : Effects more g w g' w')
    (less : ∀ g, more.Within g → held.Within g) : Effects held g w g' w' := by
  induction effects with
  | refl => exact .refl
  | step _ before effect after ih => exact .step ih (less _ before) effect (less _ after)

/-- A rule that the functions under way hold keeps its want. -/
theorem Effects.want (effects : Effects held g w g' w') (keeps : Keeps inv) (before : inv g w)
    {p : RuleId} {tcr : TcRule} (kept : p ∈ held.loans ∨ ∃ i ∈ held.installing, i.rule = some p)
    (wanted : (w.rules.cell p).wantTcr = some tcr) : (w'.rules.cell p).wantTcr = some tcr := by
  refine (effects.induct (fun g w => inv g w ∧ (w.rules.cell p).wantTcr = some tcr)
    ⟨before, wanted⟩ fun g w g' w' within _ known effect => ?_).2
  obtain ⟨invariant, wanted⟩ := known
  have sound := keeps.sound invariant
  refine ⟨keeps.kept invariant effect, effect.want_used sound ?_ wanted⟩
  rcases kept with lent | ⟨i, member, same⟩
  · have counted := Multiset.count_pos.mpr (Multiset.mem_of_le within.loans lent)
    omega
  · have claimed := (sound.faithful i (Multiset.mem_of_le within.installing member)).claimed
      sound.counts same
    omega

/-- Nothing is an effect. -/
theorem does_nothing : Does inv held g w g (pure w) := fun _ => .refl

/-- Functions one after the other. -/
theorem Does.bind {first : Except Fault World} {next : World → Except Fault World}
    (head : Does inv held g w g' first) (keeps : Keeps inv)
    (tail : ∀ w', Effects held g w g' w' → Does inv held g' w' g'' (next w')) :
    Does inv held g w g'' (first >>= next) := fun before =>
  Ends.bind (head before) fun w' effects =>
    (tail w' effects (effects.kept keeps before)).mono fun _ more => effects.trans more

/-- An effect, then a function. -/
theorem Effect.does {result : Except Fault World} (effect : Effect g w g' w') (keeps : Keeps inv)
    (within : held.Within g) (within' : held.Within g') (tail : Does inv held g' w' g'' result) :
    Does inv held g w g'' result := fun before =>
  (tail (keeps.kept before effect)).mono fun _ more =>
    (Effects.one effect within within').trans more

/-- An effect is all. -/
theorem Effect.done (effect : Effect g w g' w') (within : held.Within g)
    (within' : held.Within g') : Does inv held g w g' (.ok w') := fun _ =>
  Effects.one effect within within'

/-- A first part of which nothing is known but its result. -/
theorem does_bind {α : Type} {first : Except Fault α} {next : α → Except Fault World}
    (clean : Clean first) (tail : ∀ value, first = .ok value → Does inv held g w g' (next value)) :
    Does inv held g w g' (first >>= next) := fun before =>
  ends_bind_of clean fun value same => tail value same before

/-- After a pointer to a rule was followed the rule is known to be live. -/
theorem does_rule {r : RuleId} {next : ObjRule → Except Fault World} {w₀ : World}
    (tail : w₀.Live r → Does inv held g w g' (next (w₀.rules.cell r))) :
    Does inv held g w g' (w₀.rule r >>= next) := fun before =>
  ends_rule fun live => tail live before

/-- After a pointer to a target was followed the target is known to be live. -/
theorem does_target {t : TargetId} {next : ObjTarget → Except Fault World} {w₀ : World}
    (tail : (w₀.targets.cell t).obj.kind = .target →
      Does inv held g w g' (next (w₀.targets.cell t))) :
    Does inv held g w g' (w₀.target t >>= next) := fun before =>
  ends_target fun live => tail live before

/-- After a pointer to a route was followed the route is known to be live. -/
theorem does_route {r : RouteId} {next : ObjRoute → Except Fault World} {w₀ : World}
    (tail : (w₀.routes.cell r).obj.kind = .route →
      Does inv held g w g' (next (w₀.routes.cell r))) :
    Does inv held g w g' (w₀.route r >>= next) := fun before =>
  ends_route fun live => tail live before

/-- After a check its condition holds. -/
theorem does_require {condition : Prop} [Decidable condition] {fault : Fault}
    {next : Unit → Except Fault World} (admitted : fault ≠ .ruleState)
    (tail : condition → Does inv held g w g' (next ())) :
    Does inv held g w g' (require fault condition >>= next) := fun before =>
  ends_require_admitted admitted fun holds => tail holds before

/-- `obj_rule_ref`, then a function. -/
theorem does_objRuleRef {r : RuleId} {next : World → Except Fault World} (keeps : Keeps inv)
    (within : held.Within g)
    (tail : w.Live r → Does inv held (g.lend r)
      (w.setRule r fun rule => { rule with obj := objRef rule.obj }) g'
      (next (w.setRule r fun rule => { rule with obj := objRef rule.obj }))) :
    Does inv held g w g' (objRuleRef r w >>= next) := by
  rw [objRuleRef, bind_assoc]
  refine does_rule fun live => ?_
  exact (Effect.ref live).does keeps within (within.lend r) (tail live)

end Sequences

/-- The two functions through which the others call each other are sequences of effects. -/
structure Calls.Effectful (inv : Ghost → World → Prop) (c : Calls) : Prop where
  updateState : ∀ {held : Held} {g : Ghost} (w : World) (r : RuleId), held.Ready g →
    Does inv held (g.ask (.update r)) w g (c.objRuleUpdateState r w)
  processLoop : ∀ {held : Held} {g : Ghost} (w : World), held.Ready g →
    Does inv held g w g (c.queueProcessLoop w)

section Procedures

variable {inv : Ghost → World → Prop} {held : Held} {g : Ghost} {w : World} {c : Calls}

/-- `obj_rule_unref` gives a loan back. -/
theorem objRuleUnref_does (keeps : Keeps inv) (calls : c.Effectful inv) (r : RuleId)
    (ready : held.Ready g) : Does inv held (g.lend r) w g (objRuleUnref c r w) := by
  refine does_rule fun live => does_bind (clean_objUnref _) fun obj counted => ?_
  refine (Effect.unref live counted).does keeps (ready.toWithin.lend r) ready.toWithin ?_
  have recheck : ∀ w : World, Does inv held g w g (do
      require Fault.freedObject ((w.rules.cell r).obj.kind = .rule ∨ w.poisoned = false)
      if objIsReapable w.mode (w.rules.cell r).obj then objRuleReap r w else pure w) := by
    intro w
    refine does_require Fault.noConfusion fun _ => ?_
    split
    · next reapable =>
      refine fun _ => ends_of (clean_objRuleReap r) fun w' reaped => ?_
      obtain ⟨-, live, -⟩ := objRuleReap_ok reaped
      exact .one (.reap ready.free live reapable reaped) ready.toWithin ready.toWithin
    · exact does_nothing
  dsimp only
  split
  · next last =>
    obtain ⟨unused, wanted, present, normal, dynamic⟩ := last
    refine Does.bind ?_ keeps fun w _ => recheck w
    refine does_rule fun alive => ?_
    refine (Effect.unwant ready.free alive ?_ ?_ ?_ normal ?_).does keeps ready.toWithin
      (ready.toWithin.ask _) (calls.updateState _ r ready)
    · simpa [World.setRule] using unused
    · simpa [World.setRule] using Option.isSome_iff_ne_none.mp wanted
    · simpa [World.setRule] using Option.isSome_iff_ne_none.mp present
    · simpa [World.setRule] using dynamic
  · exact Does.bind does_nothing keeps fun w _ => recheck w

/-- `queue_schedule` for a rule that is not queued yet. -/
theorem queueSchedule_does (keeps : Keeps inv) (calls : c.Effectful inv) {tca : TcAction}
    (ready : held.Ready g) (effect : Effect (g.ask (.update tca.data)) w g (w.scheduled tca)) :
    Does inv held (g.ask (.update tca.data)) w g (queueSchedule c tca
      (w.setRule tca.data fun rule => { rule with state := .queued, obj := objRef rule.obj })) := by
  rw [queueSchedule]
  refine effect.does keeps (ready.toWithin.ask _) ready.toWithin ?_
  dsimp only
  split
  · exact does_nothing
  · exact calls.processLoop _ ready

/-- `obj_rule_queue_install` past the pins queues the want. -/
theorem objRuleQueueInstall_eq {r : RuleId} (live : w.Live r) (pins : 2 ≤ w.pinChanges) :
    objRuleQueueInstall c r (w.setRule r fun rule => { rule with state := .want }) =
      queueSchedule c ⟨(w.rules.cell r).chainNo, (w.rules.cell r).prio,
          (w.rules.cell r).wantTcr, r⟩
        (w.setRule r fun rule => { rule with state := .queued, obj := objRef rule.obj }) := by
  rw [objRuleQueueInstall, pinChanges_setRule, if_neg (Nat.not_lt.mpr pins), rule_setRule]
  · simp only [require, if_true, bind, Except.bind, setRule_setRule]
    rw [objRuleRef_setRule]
    exact live
  · exact live

/-- `obj_rule_queue_uninstall` past the pins queues a removal. -/
theorem objRuleQueueUninstall_eq {r : RuleId} (live : w.Live r) (pins : 3 ≤ w.pinChanges) :
    objRuleQueueUninstall c r (w.setRule r fun rule => { rule with state := .alien }) =
      queueSchedule c ⟨(w.rules.cell r).chainNo, (w.rules.cell r).prio, none, r⟩
        (w.setRule r fun rule => { rule with state := .queued, obj := objRef rule.obj }) := by
  rw [objRuleQueueUninstall, pinChanges_setRule, if_neg (Nat.not_lt.mpr pins), rule_setRule]
  · simp only [require, if_true, bind, Except.bind, setRule_setRule]
    rw [objRuleRef_setRule]
    exact live
  · exact live

/-- `obj_rule_queue_install` on a rule that `obj_rule_update_state` found wanted and absent. -/
theorem objRuleQueueInstall_does (keeps : Keeps inv) (calls : c.Effectful inv) {r : RuleId}
    (ready : held.Ready g) (live : w.Live r) (pinned : w.pinChanges ≠ 0)
    (idle : (w.rules.cell r).state ≠ .queued) (wanted : (w.rules.cell r).wantTcr ≠ none)
    (absent : (w.rules.cell r).haveTcr = none) :
    Does inv held (g.ask (.update r)) w g (objRuleQueueInstall c r
      (w.setRule r fun rule => { rule with state := .want })) := by
  by_cases pins : 2 ≤ w.pinChanges
  · rw [objRuleQueueInstall_eq live pins]
    have effect := @Effect.schedule g w ⟨(w.rules.cell r).chainNo, (w.rules.cell r).prio,
      (w.rules.cell r).wantTcr, r⟩ ready.free live pinned idle rfl rfl
      (.install wanted absent pins)
    exact queueSchedule_does keeps calls ready effect
  · rw [objRuleQueueInstall, pinChanges_setRule, if_pos (Nat.lt_of_not_le pins)]
    exact (Effect.settle ready.free live pinned idle
      (.want wanted absent (Nat.lt_of_not_le pins))).done (ready.toWithin.ask _) ready.toWithin

/-- `obj_rule_queue_uninstall` on a rule that `obj_rule_update_state` found present and not
wanted so. -/
theorem objRuleQueueUninstall_does (keeps : Keeps inv) (calls : c.Effectful inv) {r : RuleId}
    (ready : held.Ready g) (live : w.Live r) (pinned : w.pinChanges ≠ 0)
    (idle : (w.rules.cell r).state ≠ .queued) (present : (w.rules.cell r).haveTcr ≠ none)
    (other : (w.rules.cell r).wantTcr ≠ (w.rules.cell r).haveTcr) :
    Does inv held (g.ask (.update r)) w g (objRuleQueueUninstall c r
      (w.setRule r fun rule => { rule with state := .alien })) := by
  by_cases pins : 3 ≤ w.pinChanges
  · rw [objRuleQueueUninstall_eq live pins]
    have effect := @Effect.schedule g w ⟨(w.rules.cell r).chainNo, (w.rules.cell r).prio, none, r⟩
      ready.free live pinned idle rfl rfl (.uninstall present other pins)
    exact queueSchedule_does keeps calls ready effect
  · rw [objRuleQueueUninstall, pinChanges_setRule, if_pos (Nat.lt_of_not_le pins)]
    exact (Effect.settle ready.free live pinned idle
      (.alien present other (Nat.lt_of_not_le pins))).done (ready.toWithin.ask _) ready.toWithin

/-- What `obj_rule_prime_request` hands to its caller: a reference to a rule that is wanted, and
on which it is to call `obj_rule_update_state`. -/
def Primed (held : Held) (g : Ghost) (w : World) (tcr : TcRule) : Option RuleId × World → Prop
  | (none, w') => Effects held (g.ask (.request tcr)) w g w' ∧ tcr.type ≠ .routeGoto
  | (some r, w') => Effects held (g.ask (.request tcr)) w ((g.lend r).ask (.update r)) w' ∧
      (w'.rules.cell r).wantTcr = some tcr

/-- `obj_rule_prime_request` adopts a rule or places a new one. -/
theorem objRulePrimeRequest_does (keeps : Keeps inv) (tcr : TcRule) (ready : held.Ready g)
    (before : inv (g.ask (.request tcr)) w) :
    Ends Admitted (Primed held g w tcr) (objRulePrimeRequest tcr w) := by
  refine ends_bind_of (clean_objRuleLafLookup tcr) fun found search => ?_
  cases found with
  | some r =>
    have unwanted := ((keeps.sound before).lost.unwanted r (SearchTree.find_some search).1).2
    refine ends_bind_of (clean_objRuleRef r) fun w₁ counted => ?_
    obtain ⟨live, rfl⟩ := objRuleRef_ok counted
    refine ends_rule fun _ => ?_
    rw [cell_setRule]
    refine ends_require_admitted Fault.noConfusion fun present => ?_
    refine ends_require unwanted ?_
    refine ends_require_admitted Fault.noConfusion fun inTree => ?_
    dsimp only at present inTree ⊢
    refine ends_bind_of (clean_objRuleRef r) fun w₂ counted => ?_
    obtain ⟨-, rfl⟩ := objRuleRef_ok counted
    have effect := Effect.adopt ready.free search live (Option.isSome_iff_ne_none.mp present)
      unwanted inTree
    have same : w.adopted r tcr = (World.setRule { w.setRule r fun rule =>
        { rule with obj := objRef rule.obj } with lafTree := w.balancing.erase r w.lafTree } r
        fun rule => { rule with wantTcr := some tcr, haveLaf := false }).setRule r
        fun rule => { rule with obj := objRef rule.obj } := by
      simp [World.adopted, World.setRule]
    refine ⟨?_, ?_⟩
    · exact same ▸ .one effect (ready.toWithin.ask _) ((ready.toWithin.lend r).ask _)
    · simp [World.setRule]
  | none =>
    refine ends_bind_of (clean_schedBasicPlace tcr) fun result place => ?_
    obtain ⟨ret, placed⟩ := result
    obtain ⟨⟨chainTree, changed⟩, unplaced⟩ :=
      returns_iff.mp (schedBasicPlace_returns tcr w) _ place
    cases ret with
    | none =>
      obtain ⟨same, noForward, noGoto⟩ := unplaced rfl
      dsimp only at same
      subst same
      exact ⟨.one (.decline ready.free search noForward noGoto) (ready.toWithin.ask _)
        ready.toWithin, noGoto⟩
    | some position =>
      obtain ⟨chainNo, prio⟩ := position
      dsimp only at changed ⊢
      subst changed
      refine ends_bind_of (clean_objRuleRef _) fun w₁ counted => ?_
      obtain ⟨-, rfl⟩ := objRuleRef_ok counted
      refine ends_bind_of (clean_objRulePosInsert _) fun w' inserted => ?_
      have counted : ((objRuleAlloc { chainNo, prio, wantTcr := some tcr }
          { w with chainTree }).2.setRule w.rules.next fun rule =>
            { rule with obj := objRef rule.obj }) = (objRuleAlloc {
          chainNo, prio, wantTcr := some tcr, obj := { refcnt := 1 } } { w with chainTree }).2 := by
        simp [objRuleAlloc, World.setRule, objRef]
      have inserted : objRulePosInsert w.rules.next (objRuleAlloc {
          chainNo, prio, wantTcr := some tcr, obj := { refcnt := 1 } } { w with chainTree }).2 =
          .ok w' := counted ▸ inserted
      refine ⟨.one (.place ready.free search place inserted) (ready.toWithin.ask _)
        ((ready.toWithin.lend _).ask _), ?_⟩
      obtain ⟨-, linked, -, rfl⟩ := objRulePosInsert_alloc (w := { w with chainTree }) inserted
      simp [objRuleAlloc]

/-- What `obj_rule_request` hands to its caller: a reference to a rule that is wanted. -/
def Requested (held : Held) (g : Ghost) (w : World) (tcr : TcRule) : Option RuleId × World → Prop
  | (none, w') => Effects held (g.ask (.request tcr)) w g w' ∧ tcr.type ≠ .routeGoto
  | (some r, w') => Effects held (g.ask (.request tcr)) w (g.lend r) w' ∧ (w'.rules.cell r).wantTcr = some tcr

/-- `obj_rule_update_state` keeps the want of a rule that its caller has a reference to. -/
theorem objRuleUpdateState_want (keeps : Keeps inv) (calls : c.Effectful inv) {r : RuleId}
    {tcr : TcRule} (ready : held.Ready g) (before : inv ((g.lend r).ask (.update r)) w)
    (wanted : (w.rules.cell r).wantTcr = some tcr) :
    Ends Admitted (fun w' => Effects held ((g.lend r).ask (.update r)) w (g.lend r) w' ∧
      (w'.rules.cell r).wantTcr = some tcr) (c.objRuleUpdateState r w) := by
  have more : Held.Ready ⟨r ::ₘ held.loans, held.installing⟩ (g.lend r) :=
    ⟨⟨Multiset.cons_le_cons r ready.loans, ready.installing⟩, ready.free⟩
  refine (calls.updateState w r more before).mono fun w' effects => ⟨?_, ?_⟩
  · exact effects.weaken fun g within =>
      ⟨le_trans (Multiset.le_cons_self _ _) within.loans, within.installing⟩
  · exact effects.want keeps before (.inl (Multiset.mem_cons_self _ _)) wanted

/-- `obj_rule_request` adopts or places a rule and asks for it. -/
theorem objRuleRequest_does (keeps : Keeps inv) (calls : c.Effectful inv) (tcr : TcRule)
    (ready : held.Ready g) (before : inv (g.ask (.request tcr)) w) :
    Ends Admitted (Requested held g w tcr) (objRuleRequest c tcr w) := by
  refine Ends.bind (objRulePrimeRequest_does keeps tcr ready before) fun ⟨r, w'⟩ primed => ?_
  cases r with
  | none => exact primed
  | some r =>
    obtain ⟨effects, wanted⟩ := primed
    refine Ends.bind (objRuleUpdateState_want keeps calls ready (effects.kept keeps before) wanted)
      fun w'' ⟨more, wanted⟩ => ?_
    exact ⟨effects.trans more, wanted⟩

/-- A removal's report, handled. -/
theorem objRuleNetlinkGone_does (keeps : Keeps inv) (calls : c.Effectful inv) (chainNo : UInt32)
    (prio : UInt16) (tcr : TcRule) (ready : held.Ready g) :
    Does inv held (g.ask (.report ⟨chainNo, prio, none⟩)) w g
      (objRuleNetlinkGone c chainNo prio tcr w) := by
  simp only [objRuleNetlinkGone, objRuleFind_hears]
  refine does_bind (clean_objRuleFind chainNo prio tcr) fun found search => ?_
  cases found with
  | none =>
    have effect : Effect (g.ask (.report ⟨chainNo, prio, none⟩)) w g
        (w.hears ⟨chainNo, prio, none⟩) := .ignore ready.free (fun _ => ⟨tcr, search⟩) (by simp)
    exact effect.done (ready.toWithin.ask _) ready.toWithin
  | some r =>
    refine does_rule fun live => ?_
    rw [objRuleDelete, objRuleRef_live live, ok_bind]
    simp only [setRule_setRule]
    refine (Effect.vanish ready.free search live).does keeps (ready.toWithin.ask _)
      ((ready.toWithin.lend r).next _) ?_
    refine does_rule fun _ => ?_
    rw [cell_setRule, World.rules_hears]
    dsimp only
    cases want : (w.rules.cell r).wantTcr with
    | none =>
      rw [if_pos rfl, Ghost.next_none (ready.lend r).free]
      exact Does.bind does_nothing keeps fun w' _ => objRuleUnref_does keeps calls r ready
    | some tcr =>
      rw [if_neg (Option.some_ne_none tcr)]
      exact Does.bind (calls.updateState _ r (ready.lend r)) keeps fun w' _ =>
        objRuleUnref_does keeps calls r ready

/-- A filter's report, handled. -/
theorem objRuleNetlinkFound_does (keeps : Keeps inv) (calls : c.Effectful inv) (chainNo : UInt32)
    (prio : UInt16) (tcr : TcRule) (ready : held.Ready g) :
    Does inv held (g.ask (.report ⟨chainNo, prio, some tcr⟩)) w g
      (objRuleNetlinkFound c chainNo prio tcr w) := by
  simp only [objRuleNetlinkFound, objRuleFind_hears]
  refine does_bind (clean_objRuleFind chainNo prio tcr) fun found search => ?_
  cases found with
  | none =>
    refine does_bind (clean_objRulePosInsert _) fun w₁ inPos => ?_
    refine does_bind (clean_objRuleLafInsert _) fun w₂ inLaf => ?_
    exact (Effect.discover ready.free search inPos inLaf).does keeps (ready.toWithin.ask _)
      (ready.toWithin.ask _) (calls.updateState _ _ ready)
  | some r =>
    refine does_rule fun live => ?_
    refine does_require Fault.noConfusion fun chain => ?_
    refine does_require Fault.noConfusion fun position => ?_
    split
    · next same =>
      have effect : Effect (g.ask (.report ⟨chainNo, prio, some tcr⟩)) w g
          (w.hears ⟨chainNo, prio, some tcr⟩) := by
        refine .ignore ready.free (by simp) fun other content => ?_
        cases content
        exact ⟨r, live, search, same⟩
      exact effect.done (ready.toWithin.ask _) ready.toWithin
    · next changed =>
      exact (Effect.found ready.free search live chain position changed).does keeps
        (ready.toWithin.ask _) (ready.toWithin.ask _) (calls.updateState _ r ready)

/-- A report of the kernel, handled. -/
theorem objRuleNotified_does (keeps : Keeps inv) (calls : c.Effectful inv) (note : Note)
    (ready : held.Ready g) :
    Does inv held (g.ask (.report note)) w g (objRuleNotified c note w) := by
  obtain ⟨chainNo, prio, filter⟩ := note
  cases filter with
  | none => exact objRuleNetlinkGone_does keeps calls chainNo prio {} ready
  | some tcr => exact objRuleNetlinkFound_does keeps calls chainNo prio tcr ready

/-- The kernel reports the requested change, or nothing. -/
theorem answer_notes (tca : TcAction) :
    (w.answer tca).2 = [] ∨ (w.answer tca).2 = [⟨tca.chainNo, tca.prio, tca.tcr⟩] := by
  simp only [World.answer, Kernel.request]
  split
  · exact .inl rfl
  · exact .inr rfl

/-- The way of reporting is the kernel's own. -/
theorem answer_echoes (tca : TcAction) : (w.answer tca).1.echoes = w.kernel.echoes := by
  simp only [World.answer, Kernel.request]
  split <;> rfl

/-- `tc_action_execute` on the action that `queue_process` starts. -/
theorem tcActionExecute_does (keeps : Keeps inv) (calls : c.Effectful inv) {tca : TcAction}
    {queue : Queue TcAction} (started : w.queue.queueProcess = .ok (tca, queue))
    (ready : held.Ready g) :
    Does inv held g w (g.run g.routesUnderWay) (tcActionExecute c tca { w with queue }) := by
  intro before
  have sound := keeps.sound before
  have first : tca ∈ w.waiting := by
    rw [waiting_queueProcess started]
    exact List.mem_cons_self
  have queued := sound.waits.queued tca first
  have live := sound.counts.live_waiting first
  refine (?_ : Does inv held g w (g.run g.routesUnderWay) _) before
  have effect := Effect.execute ready.free started live
  have within := ((ready.run g.routesUnderWay).lend tca.data).toWithin
  have preInstall : objRulePreInstall tca.data { w with queue } =
      .ok (World.setRule { w with queue } tca.data fun rule => { rule with state := .pending }) := by
    have followed : World.rule { w with queue } tca.data = .ok (w.rules.cell tca.data) :=
      rule_live (w := { w with queue }) live
    rw [objRulePreInstall, followed, ok_bind, queued, require, if_pos rfl]
    rfl
  have released : ∀ w', Does inv held ((g.run g.routesUnderWay).lend tca.data) w'
      (g.run g.routesUnderWay) (objRuleUnref c tca.data w') := fun w' =>
    objRuleUnref_does keeps calls tca.data (ready.run _)
  have nothing := Ghost.next_none ((ready.run g.routesUnderWay).lend tca.data).free
  rw [tcActionExecute, preInstall, ok_bind, tcActionDoInstall, bind_assoc]
  refine does_bind (clean_tcEncodeRule ..) fun nlh encoded => ?_
  change Does inv held g w (g.run g.routesUnderWay) ((if (w.answer tca).1.echoes then
    if (w.answer tca).2 = [] then pure _ else tcInstallHandler c nlh tca _ else _) >>= _)
  change tcEncodeRule _ _ _ _ w.kernel.echoes = .ok nlh at encoded
  rw [answer_echoes]
  cases echoes : w.kernel.echoes with
  | false =>
    rw [if_neg Bool.false_ne_true]
    have silent : w.echo tca = none := by simp [World.echo, echoes]
    rw [silent, nothing] at effect
    refine does_bind ?_ fun w' sent => ?_
    · refine faults_bind ?_ fun _ => faults_bind (faults_bind clean_require fun _ => trivial)
        fun _ => trivial
      rw [Queue.queueGetConn]
      split
      · trivial
      · exact Fault.noConfusion
    · obtain ⟨conn, -, sent⟩ := bind_returned sent
      obtain ⟨sentQueue, marked, sent⟩ := bind_returned sent
      obtain ⟨_, -, marked⟩ := bind_returned marked
      cases marked
      cases sent
      have same : w.executed tca queue = { World.setRule { w with queue } tca.data fun rule =>
          { rule with state := .pending } with
          kernel := { (w.answer tca).1 with notes := (w.answer tca).1.notes ++ (w.answer tca).2 }
          log := w.log ++ [.sent tca (w.kernel.filters tca.chainNo tca.prio)
            ((World.setRule { w with queue } tca.data fun rule =>
              { rule with state := .pending }).rules.cell tca.data).wantTcr]
          queue := { queue with hasSentRequest := true } } := by
        simp [World.executed, World.setRule, echoes]
      rw [same] at effect
      exact effect.does keeps ready.toWithin within (released _)
  | true =>
    rw [if_pos rfl]
    have same : w.executed tca queue = { World.setRule { w with queue } tca.data fun rule =>
        { rule with state := .pending } with
        kernel := (w.answer tca).1
        log := w.log ++ [.sent tca (w.kernel.filters tca.chainNo tca.prio)
          ((World.setRule { w with queue } tca.data fun rule =>
            { rule with state := .pending }).rules.cell tca.data).wantTcr] } := by
      simp [World.executed, World.setRule, echoes]
    rw [same] at effect
    refine effect.does keeps ready.toWithin (within.next _) ?_
    rcases answer_notes (w := w) tca with none | one
    · have silent : w.echo tca = Option.none := by simp [World.echo, echoes, none]
      rw [silent, nothing, if_pos none]
      exact released _
    · have echo : w.echo tca = some (.report ⟨tca.chainNo, tca.prio, tca.tcr⟩) := by
        simp [World.echo, echoes, one]
      rw [echo, if_neg (by simp [one])]
      refine Does.bind ?_ keeps fun w' _ => released w'
      rw [echoes] at encoded
      rcases tcInstallHandler_reports encoded with ⟨fault, admitted, stopped⟩ | reports
      · rw [stopped]
        exact fun _ => admitted
      · rw [reports]
        exact objRuleNotified_does keeps calls _ ((ready.run _).lend _)

/-- `queue_process_loop` executes the queued actions one after the other. -/
theorem queueProcessLoop_does (keeps : Keeps inv) (calls : c.Effectful inv)
    (ready : held.Ready g) : Does inv held g w g (queueProcessLoop c w) := by
  rw [queueProcessLoop]
  split
  · refine does_bind (clean_queueProcess _) fun ⟨tca, queue⟩ started => ?_
    refine Does.bind (tcActionExecute_does keeps calls started ready) keeps fun w' _ => ?_
    split
    · next sent => exact (Effect.leave ready.free sent).done (ready.toWithin.run _) ready.toWithin
    · refine does_bind (clean_handleQueueCompleted ..) fun ⟨tca, queue⟩ completed => ?_
      exact (Effect.complete ready.free completed).does keeps (ready.toWithin.run _)
        ready.toWithin (calls.processLoop _ ready)
  · exact does_nothing

end Procedures

end FlowerRoute
