import FlowerRoute.Verif.Frames
import FlowerRoute.Verif.Inversion
import FlowerRoute.Verif.Positions
import FlowerRoute.Verif.StateMachine

/-!
# Static rules

Rules that `obj_rule_static_want` requested, against a kernel that reports later. A static rule is
reaped as soon as an action of it is executed while the kernel has not reported a filter at its
position; where no such action is executed, it stays.
-/

namespace FlowerRoute

open Outcome

/-- What holds of every rule, where `filters` are the kernel's filters at the start. -/
structure ObjRule.Lasts (filters : UInt32 → UInt16 → Option TcRule) (rule : ObjRule) : Prop where
  installed : rule.haveTcr ≠ none → rule.obj.state = .installed
  found : rule.haveTcr = none ∨ rule.haveTcr = filters rule.chainNo rule.prio
  wanted : rule.wantTcr ≠ none ↔ rule.type = .static
  live : rule.type = .static → rule.obj.kind = .rule
  placed : rule.obj.kind = .rule → rule.havePos = true
  target : rule.target = none

/-- Nothing was ever installed, and no uninstall was queued where the kernel had what a static
rule wants. -/
structure Lasting (filters : UInt32 → UInt16 → Option TcRule) (w : World) : Prop where
  silent : w.kernel.echoes = false
  normal : w.mode = .normal
  kept : ∀ chainNo prio, w.kernel.filters chainNo prio = none ∨
    w.kernel.filters chainNo prio = filters chainNo prio
  notes : ∀ note ∈ w.kernel.notes, Small note.chainNo ∧
    (note.filter = none ∨ note.filter = filters note.chainNo note.prio)
  rules : ∀ r, (w.rules.cell r).Lasts filters
  bound : ∀ r, w.Live r → r < w.rules.next
  placed : Placed w
  inside : ∀ r, w.Live r → r ∈ w.posTree.toList
  waits : ∀ tca ∈ w.waiting, Small tca.chainNo ∧
    (tca.tcr ≠ none → (w.rules.cell tca.data).type = .static)
  log : ∀ tca filter, .queued tca filter ∈ w.log → tca.tcr = none → ∀ r,
    (w.rules.cell r).type = .static → (w.rules.cell r).chainNo = tca.chainNo →
    (w.rules.cell r).prio = tca.prio → filter ≠ (w.rules.cell r).wantTcr
  early : w.pinChanges = 0 → w.queue.isBusy = false ∧ ∀ tca filter, .queued tca filter ∉ w.log

/-- Static rules keep what they want and have. -/
structure Spares (w w' : World) : Prop extends SamePlaces w w' where
  want : ∀ r, (w.rules.cell r).type = .static →
    (w'.rules.cell r).wantTcr = (w.rules.cell r).wantTcr

variable {filters : UInt32 → UInt16 → Option TcRule} {w w' w'' : World}

namespace Spares

theorem refl (w : World) : Spares w w := ⟨.refl w, fun _ _ => rfl⟩

theorem trans (first : Spares w w') (second : Spares w' w'')
    (bound : ∀ r, (w.rules.cell r).type = .static → r < w.rules.next) : Spares w w'' where
  toSamePlaces := first.toSamePlaces.trans second.toSamePlaces
  want r static := by
    rw [second.want r ((first.place r (bound r static)).2.2.trans static), first.want r static]

/-- A change of one rule that keeps its place and its want. -/
theorem modify {r : RuleId} {f : ObjRule → ObjRule} (rules : w'.rules = w.rules.modify r f)
    (keep : ∀ rule, (f rule).chainNo = rule.chainNo ∧ (f rule).prio = rule.prio ∧
      (f rule).type = rule.type)
    (want : (w.rules.cell r).type = .static →
      (f (w.rules.cell r)).wantTcr = (w.rules.cell r).wantTcr) : Spares w w' where
  toSamePlaces := .modify rules keep
  want p static := by
    rw [rules, Heap.cell_modify]
    split
    · next here =>
      subst here
      exact want static
    · rfl

end Spares

namespace Lasting

/-- A static rule has been handed out. -/
theorem static_bound (lasting : Lasting filters w) (r : RuleId)
    (static : (w.rules.cell r).type = .static) : r < w.rules.next :=
  lasting.bound r ((lasting.rules r).live static)

/-- What a change of one rule preserves. -/
theorem modify (lasting : Lasting filters w) {r : RuleId} {f : ObjRule → ObjRule}
    (rules : w'.rules = w.rules.modify r f) (kernel : w'.kernel.echoes = w.kernel.echoes)
    (mode : w'.mode = w.mode)
    (atFilters : ∀ chainNo prio, w'.kernel.filters chainNo prio = none ∨
      w'.kernel.filters chainNo prio = w.kernel.filters chainNo prio)
    (notes : ∀ note ∈ w'.kernel.notes, note ∈ w.kernel.notes ∨
      Small note.chainNo ∧ note.filter = none)
    (keep : ∀ rule, (f rule).chainNo = rule.chainNo ∧ (f rule).prio = rule.prio ∧
      (f rule).type = rule.type)
    (lasts : (f (w.rules.cell r)).Lasts filters)
    (want : (w.rules.cell r).type = .static →
      (f (w.rules.cell r)).wantTcr = (w.rules.cell r).wantTcr)
    (alive : (f (w.rules.cell r)).obj.kind = .rule → w.Live r)
    (tree : w'.posTree.toList = if (f (w.rules.cell r)).obj.kind = .rule then w.posTree.toList
      else w.posTree.toList.erase r)
    (waits : ∀ tca ∈ w'.waiting, tca ∈ w.waiting ∨ Small tca.chainNo ∧ (tca.tcr ≠ none →
      (w.rules.cell tca.data).type = .static))
    (log : ∀ tca filter, .queued tca filter ∈ w'.log → .queued tca filter ∈ w.log ∨
      w.pinChanges ≠ 0 ∧ (tca.tcr = none → ∀ p, (w.rules.cell p).type = .static →
        (w.rules.cell p).chainNo = tca.chainNo → (w.rules.cell p).prio = tca.prio →
        filter ≠ (w.rules.cell p).wantTcr))
    (pins : w'.pinChanges = w.pinChanges)
    (busy : w'.queue.isBusy = true → w.queue.isBusy = true ∨ w.pinChanges ≠ 0) :
    Lasting filters w' ∧ Spares w w' := by
  have spares : Spares w w' := .modify rules keep want
  have field : ∀ {β : Type} (get : ObjRule → β), (∀ rule, get (f rule) = get rule) → ∀ p,
      get (w'.rules.cell p) = get (w.rules.cell p) := fun get same p => by
    rw [rules]
    exact Heap.cell_modify_field _ _ _ get same
  have chain := field (·.chainNo) fun rule => (keep rule).1
  have prio := field (·.prio) fun rule => (keep rule).2.1
  have type := field (·.type) fun rule => (keep rule).2.2
  have live : ∀ p, p ≠ r → (w'.Live p ↔ w.Live p) := fun p apart => by
    rw [World.Live, World.Live, rules, Heap.cell_modify_ne _ _ apart]
  have here : w'.Live r ↔ (f (w.rules.cell r)).obj.kind = .rule := by
    rw [World.Live, rules, Heap.cell_modify_same]
  have distinct := lasting.placed.nodup
  have sub : w'.posTree.toList.Sublist w.posTree.toList := by
    rw [tree]
    split
    · exact List.Sublist.refl _
    · exact List.erase_sublist
  refine ⟨⟨kernel.trans lasting.silent, mode.trans lasting.normal, fun c p => ?_, fun note member => ?_,
    fun p => ?_, fun p alive' => ?_, lasting.placed.keep sub (fun p inside before => ?_)
      fun p _ => ⟨chain p, prio p⟩, fun p alive' => ?_, fun tca member => ?_,
    fun tca filter member request p static => ?_, fun zero => ?_⟩, spares⟩
  · rcases atFilters c p with none | same
    · exact .inl none
    · rw [same]
      exact lasting.kept c p
  · exact (notes note member).elim (lasting.notes note) fun new => ⟨new.1, .inl new.2⟩
  · rw [rules, Heap.cell_modify]
    split
    · next same => exact same ▸ lasts
    · exact lasting.rules p
  · rw [rules, Heap.next_modify]
    by_cases same : p = r
    · subst same
      exact lasting.bound p (alive (here.mp alive'))
    · exact lasting.bound p ((live p same).mp alive')
  · by_cases same : p = r
    · subst same
      rw [tree] at inside
      split at inside
      · next kind => exact here.mpr kind
      · exact absurd inside distinct.not_mem_erase
    · exact (live p same).mpr before
  · rw [tree]
    by_cases same : p = r
    · subst same
      rw [if_pos (here.mp alive')]
      exact lasting.inside p (alive (here.mp alive'))
    · have member := lasting.inside p ((live p same).mp alive')
      split
      · exact member
      · exact (List.mem_erase_of_ne same).mpr member
  · rw [type]
    exact (waits tca member).elim (lasting.waits tca) id
  · rw [type] at static
    rw [chain, prio, spares.want p static]
    rcases log tca filter member with old | ⟨-, new⟩
    · exact lasting.log tca filter old request p static
    · exact new request p static
  · rw [pins] at zero
    obtain ⟨idle, none⟩ := lasting.early zero
    refine ⟨?_, fun tca filter member => ?_⟩
    · cases run : w'.queue.isBusy with
      | false => rfl
      | true =>
        rcases busy run with before | removed
        · rw [idle] at before
          cases before
        · exact absurd zero removed
    · rcases log tca filter member with old | ⟨removed, -⟩
      · exact none tca filter old
      · exact removed zero

/-- A change of one rule and of nothing else. -/
theorem set (lasting : Lasting filters w) {r : RuleId} {f : ObjRule → ObjRule}
    (keep : ∀ rule, (f rule).chainNo = rule.chainNo ∧ (f rule).prio = rule.prio ∧
      (f rule).type = rule.type) (lasts : (f (w.rules.cell r)).Lasts filters)
    (want : (w.rules.cell r).type = .static →
      (f (w.rules.cell r)).wantTcr = (w.rules.cell r).wantTcr)
    (live : w.Live r) (kind : (f (w.rules.cell r)).obj.kind = .rule) :
    Lasting filters (w.setRule r f) ∧ Spares w (w.setRule r f) :=
  lasting.modify (rules_setRule ..) rfl rfl (fun _ _ => .inr rfl) (fun _ member => .inl member) keep
    lasts want (fun _ => live) (by rw [if_pos kind]; rfl) (fun _ member => .inl member)
    (fun _ _ member => .inl member) rfl .inl

/-- What is preserved where no rule changes. -/
theorem keep (lasting : Lasting filters w) (rules : w'.rules = w.rules)
    (echoes : w'.kernel.echoes = w.kernel.echoes) (mode : w'.mode = w.mode)
    (atFilters : w'.kernel.filters = w.kernel.filters)
    (notes : ∀ note ∈ w'.kernel.notes, note ∈ w.kernel.notes) (tree : w'.posTree = w.posTree)
    (waits : ∀ tca ∈ w'.waiting, tca ∈ w.waiting)
    (log : ∀ tca filter, .queued tca filter ∈ w'.log → .queued tca filter ∈ w.log)
    (early : w'.pinChanges = 0 → w.pinChanges = 0 ∧ (w.queue.isBusy = false →
      w'.queue.isBusy = false)) : Lasting filters w' where
  silent := echoes.trans lasting.silent
  normal := mode.trans lasting.normal
  kept := by
    rw [atFilters]
    exact lasting.kept
  notes note member := lasting.notes note (notes note member)
  rules := by
    rw [rules]
    exact lasting.rules
  bound r live := by
    rw [World.Live, rules] at live
    rw [rules]
    exact lasting.bound r live
  placed := by
    refine lasting.placed.keep (by rw [tree]) (fun r _ live => ?_) fun r _ => by simp [rules]
    rw [World.Live, rules]
    exact live
  inside r live := by
    rw [World.Live, rules] at live
    rw [tree]
    exact lasting.inside r live
  waits tca member := by
    rw [rules]
    exact lasting.waits tca (waits tca member)
  log tca filter member := by
    rw [rules]
    exact lasting.log tca filter (log tca filter member)
  early zero := by
    obtain ⟨before, idle⟩ := early zero
    exact ⟨idle (lasting.early before).1, fun tca filter member =>
      (lasting.early before).2 tca filter (log tca filter member)⟩

/-- What a new rule preserves. -/
theorem alloc (lasting : Lasting filters w) {rule rule₁ : ObjRule} {w₁ : World}
    {linked : SearchTree RuleId} (rules : w'.rules = w.rules.alloc rule)
    (rules₁ : w₁.rules = w.rules.alloc rule₁) (small : Small rule.chainNo)
    (kind : rule.obj.kind = .rule) (lasts : rule.Lasts filters)
    (link : w.posTree.link (posCompare rule.chainNo rule.prio w₁) w.rules.next =
      .ok (some linked)) (tree : w'.posTree.toList = linked.toList)
    (kernel : w'.kernel = w.kernel) (mode : w'.mode = w.mode) (queue : w'.queue = w.queue)
    (log : w'.log = w.log) (pins : w'.pinChanges = w.pinChanges)
    (early : rule.type = .static → w.pinChanges = 0) : Lasting filters w' ∧ Spares w w' := by
  have old : ∀ r, r < w.rules.next → w'.rules.cell r = w.rules.cell r := fun r bound => by
    rw [rules, Heap.cell_alloc_ne _ _ (Nat.ne_of_lt bound)]
  have new : w'.rules.cell w.rules.next = rule := by rw [rules, Heap.cell_alloc_same]
  have waiting : w'.waiting = w.waiting := by rw [World.waiting, World.waiting, queue]
  refine ⟨⟨by rw [kernel]; exact lasting.silent, mode.trans lasting.normal, by rw [kernel]; exact
    lasting.kept, by rw [kernel]; exact lasting.notes, fun r => ?_, fun r live => ?_,
    lasting.placed.alloc lasting.bound small kind rules rules₁ link tree, fun r live => ?_,
    fun tca member => ?_, fun tca filter member removal r static => ?_, fun zero => ?_⟩,
    ⟨.alloc rules, fun r static => ?_⟩⟩
  · by_cases same : r = w.rules.next
    · rw [same, new]
      exact lasts
    · rw [rules, Heap.cell_alloc_ne _ _ same]
      exact lasting.rules r
  · rw [rules, Heap.next_alloc]
    by_cases same : r = w.rules.next
    · exact same ▸ Nat.lt_succ_self _
    · rw [World.Live, rules, Heap.cell_alloc_ne _ _ same] at live
      exact Nat.lt_succ_of_lt (lasting.bound r live)
  · rw [tree]
    refine (SearchTree.mem_link link).mpr ?_
    by_cases same : r = w.rules.next
    · exact .inl same
    · rw [World.Live, rules, Heap.cell_alloc_ne _ _ same] at live
      exact .inr (lasting.inside r live)
  · rw [waiting] at member
    obtain ⟨place, static⟩ := lasting.waits tca member
    refine ⟨place, fun installs => ?_⟩
    rw [old _ (lasting.static_bound _ (static installs))]
    exact static installs
  · rw [log] at member
    by_cases same : r = w.rules.next
    · rw [same, new] at static
      exact absurd member ((lasting.early (early static)).2 tca filter)
    · rw [rules, Heap.cell_alloc_ne _ _ same] at static ⊢
      exact lasting.log tca filter member removal r static
  · rw [pins] at zero
    rw [queue, log]
    exact lasting.early zero
  · rw [old r (lasting.static_bound r static)]

/-- A rule that is not static is reaped. -/
theorem reap (lasting : Lasting filters w) {r : RuleId} (live : w.Live r)
    (other : (w.rules.cell r).type ≠ .static) :
    Lasting filters (w.reaped r) ∧ Spares w (w.reaped r) := by
  have dead : ¬ ((ObjRule.reaped (w.rules.cell r)).obj.kind = .rule) := ObjKind.noConfusion
  refine lasting.modify (r := r) (f := ObjRule.reaped) (by simp [World.reaped, World.setRule])
    (by simp [World.reaped]) ?_ (fun _ _ => .inr (by simp [World.reaped]))
    (fun _ member => .inl (by simpa [World.reaped] using member)) (fun _ => ⟨rfl, rfl, rfl⟩) ?_
    (fun static => absurd static other) (fun kind => absurd kind dead) ?_
    (fun _ member => .inl (by simpa [World.reaped, World.waiting] using member))
    (fun _ _ member => .inl (by simpa [World.reaped] using member)) (by simp [World.reaped])
    (fun busy => .inl (by simpa [World.reaped] using busy))
  · rw [World.reaped]
    cases (w.rules.cell r).target <;> rfl
  · exact ⟨fun present => absurd rfl present, .inl rfl,
      ⟨fun present => absurd rfl present, fun static => absurd static other⟩,
      fun static => absurd static other, fun kind => absurd kind dead, rfl⟩
  · rw [if_neg dead, World.reaped]
    dsimp only
    rw [if_pos ((lasting.rules r).placed live), w.balancing.erase_toList]

end Lasting

/-- What a function on rules leaves: static rules keep what they want and have. -/
structure Steady (filters : UInt32 → UInt16 → Option TcRule) (w w' : World) : Prop where
  lasting : Lasting filters w'
  spares : Spares w w'
  next : w'.rules.next = w.rules.next
  present : ∀ r, (w.rules.cell r).type = .static →
    (w'.rules.cell r).haveTcr = (w.rules.cell r).haveTcr

namespace Steady

theorem refl (lasting : Lasting filters w) : Steady filters w w :=
  ⟨lasting, .refl w, rfl, fun _ _ => rfl⟩

theorem trans (first : Steady filters w w') (second : Steady filters w' w'')
    (bound : ∀ r, (w.rules.cell r).type = .static → r < w.rules.next) : Steady filters w w'' where
  lasting := second.lasting
  spares := first.spares.trans second.spares bound
  next := second.next.trans first.next
  present r static := by
    rw [second.present r ((first.spares.place r (bound r static)).2.2.trans static),
      first.present r static]

/-- No rule becomes static. -/
theorem static (steady : Steady filters w w') {r : RuleId}
    (static : (w'.rules.cell r).type = .static) : (w.rules.cell r).type = .static := by
  have bound := steady.lasting.static_bound r static
  rw [steady.next] at bound
  exact (steady.spares.place r bound).2.2.symm.trans static

end Steady

section Functions

variable {c : Calls} {r : RuleId}

/-- `obj_rule_unref` keeps a static rule that is reported or has another reference. -/
theorem Lasting.unref (lasting : Lasting filters w)
    (kept : (w.rules.cell r).type = .static →
      (w.rules.cell r).haveTcr ≠ none ∨ 1 < w.refcnt r)
    (ran : objRuleUnref c r w = .ok w') :
    Steady filters w w' ∧ w'.queue = w.queue ∧ w'.kernel = w.kernel := by
  obtain ⟨rule, followed, ran⟩ := bind_returned ran
  obtain ⟨live, rfl⟩ := rule_ok followed
  obtain ⟨obj, counted, ran⟩ := bind_returned ran
  obtain ⟨rfl, -⟩ := objUnref_ok counted
  have lasts := lasting.rules r
  -- what is wanted is static, so nothing is uninstalled
  have noUninstall : ¬ ((w.rules.cell r).obj.refcnt - 1 = 0 ∧ (w.rules.cell r).wantTcr.isSome ∧
      (w.rules.cell r).haveTcr.isSome ∧ w.mode = .normal ∧
      (w.rules.cell r).type ≠ .static) := fun ⟨_, wanted, _, _, dynamic⟩ =>
    dynamic (lasts.wanted.mp (Option.isSome_iff_ne_none.mp wanted))
  dsimp only at ran
  split at ran
  · next last => exact absurd last noUninstall
  obtain ⟨_, same, ran⟩ := bind_returned ran
  cases same
  obtain ⟨_, -, ran⟩ := bind_returned ran
  obtain ⟨lasting₁, spares⟩ := lasting.set (r := r) (f := fun rule => { rule with
      obj := { (w.rules.cell r).obj with refcnt := (w.rules.cell r).obj.refcnt - 1 } })
    (fun _ => ⟨rfl, rfl, rfl⟩)
    ⟨lasts.installed, lasts.found, lasts.wanted, lasts.live, lasts.placed, lasts.target⟩
    (fun _ => rfl) live live
  have steady : Steady filters w _ := ⟨lasting₁, spares, rfl, fun p _ => by
    rw [rules_setRule]
    exact Heap.cell_modify_field _ _ _ ObjRule.haveTcr fun _ => rfl⟩
  split at ran
  · next reapable =>
    obtain ⟨rfl, live₁, unused, -⟩ := objRuleReap_ok ran
    have other : (w.rules.cell r).type ≠ .static := by
      intro static
      rw [cell_setRule] at reapable
      simp only [objIsReapable, mode_setRule, lasting.normal, decide_eq_true_eq] at reapable
      rcases kept static with present | more
      · exact reapable.2.2 (lasts.installed present)
      · rw [World.refcnt] at more
        omega
    obtain ⟨lasting₂, spares₂⟩ := lasting₁.reap live₁ (by rwa [cell_setRule])
    refine ⟨steady.trans ⟨lasting₂, spares₂, ?_, fun p static => ?_⟩ lasting.static_bound, ?_, ?_⟩
    · simp [World.reaped, World.setRule]
    · have apart : p ≠ r := fun same => other (by
        subst same
        rwa [cell_setRule] at static)
      simp [World.reaped, World.setRule, Heap.cell_modify_ne _ _ apart]
    · simp [World.reaped]
    · simp [World.reaped]
  · cases ran
    exact ⟨steady, rfl, rfl⟩

/-- The kernel's answer to a removal. -/
theorem answer_removal (w : World) {tca : TcAction} (removal : tca.tcr = none) :
    (∀ chainNo prio, (w.answer tca).1.filters chainNo prio = none ∨
      (w.answer tca).1.filters chainNo prio = w.kernel.filters chainNo prio) ∧
    (w.answer tca).1.notes = w.kernel.notes ∧
    ∀ note ∈ (w.answer tca).2, note = ⟨tca.chainNo, tca.prio, none⟩ := by
  rw [World.answer, removal, Kernel.request]
  split
  · exact ⟨fun _ _ => .inr rfl, rfl, fun _ member => absurd member List.not_mem_nil⟩
  · refine ⟨fun chainNo prio => ?_, rfl, fun _ member => List.mem_singleton.mp member⟩
    dsimp only
    split
    · exact .inl rfl
    · exact .inr rfl

/-- A removal is executed, and of a static rule only one that is reported. -/
theorem Lasting.execute (lasting : Lasting filters w) {tca : TcAction} {queue : Queue TcAction}
    (started : w.queue.queueProcess = .ok (tca, queue)) (removed : w.pinChanges ≠ 0)
    (place : Small tca.chainNo) (removal : tca.tcr = none)
    (kept : (w.rules.cell tca.data).type = .static → (w.rules.cell tca.data).haveTcr ≠ none)
    (ran : tcActionExecute c tca { w with queue } = .ok w') :
    Steady filters w w' ∧ w'.queue = { queue with hasSentRequest := true } := by
  obtain ⟨live, unrefs⟩ := tcActionExecute_silent lasting.silent ran
  have lasts := lasting.rules tca.data
  have order := waiting_queueProcess started
  have queue' : (w.executed tca queue).queue = { queue with hasSentRequest := true } := by
    simp [World.executed, lasting.silent]
  have kernel : (w.executed tca queue).kernel =
      { (w.answer tca).1 with notes := (w.answer tca).1.notes ++ (w.answer tca).2 } := by
    simp [World.executed, lasting.silent]
  obtain ⟨emptied, same, reported⟩ := answer_removal w removal
  have moved : Lasting filters (w.executed tca queue) ∧ Spares w (w.executed tca queue) := by
    refine lasting.modify (w.rules_executed tca queue)
      (by simp only [World.executed, World.answer, Kernel.request]; split <;> split <;> rfl) rfl
      (fun chainNo prio => ?_) (fun note member => ?_) (fun _ => ⟨rfl, rfl, rfl⟩)
      ⟨lasts.installed, lasts.found, lasts.wanted, lasts.live, lasts.placed, lasts.target⟩
      (fun _ => rfl) (fun _ => live) (if_pos live).symm (fun other member => ?_)
      (fun other filter member => ?_) rfl fun _ => .inr removed
    · rw [kernel]
      exact emptied chainNo prio
    · rw [kernel] at member
      refine (List.mem_append.mp member).imp (fun old => same ▸ old) fun new => ?_
      rw [reported note new]
      exact ⟨place, rfl⟩
    · refine .inl (order ▸ List.mem_cons_of_mem _ ?_)
      rw [World.waiting, queue'] at member
      exact member
    · refine .inl ?_
      simp only [World.executed, List.mem_append, List.mem_singleton] at member
      exact member.resolve_right TcEvent.noConfusion
  have steady : Steady filters w (w.executed tca queue) := ⟨moved.1, moved.2, rfl, fun p _ => by
    rw [w.rules_executed]
    exact Heap.cell_modify_field _ _ _ ObjRule.haveTcr fun _ => rfl⟩
  have present : ((w.executed tca queue).rules.cell tca.data).type = .static →
      ((w.executed tca queue).rules.cell tca.data).haveTcr ≠ none := by
    rw [w.rules_executed, Heap.cell_modify_same]
    exact kept
  obtain ⟨released, unmoved, -⟩ := moved.1.unref (fun static => .inl (present static)) unrefs
  exact ⟨steady.trans released lasting.static_bound, unmoved.trans queue'⟩

/-- A queue that is run executes its first action. -/
theorem Lasting.process (lasting : Lasting filters w) (removed : w.pinChanges ≠ 0)
    (head : ∀ tca ∈ w.waiting.head?, tca.tcr = none ∧
      ((w.rules.cell tca.data).type = .static → (w.rules.cell tca.data).haveTcr ≠ none))
    (ran : queueProcessLoop c w = .ok w') : Steady filters w w' ∧ Still w' := by
  rw [queueProcessLoop] at ran
  split at ran
  · obtain ⟨⟨tca, queue⟩, started, ran⟩ := bind_returned ran
    obtain ⟨w₁, executed, ran⟩ := bind_returned ran
    have order := waiting_queueProcess started
    have member : tca ∈ w.waiting := order ▸ List.mem_cons_self
    obtain ⟨removal, kept⟩ := head tca (by rw [order]; rfl)
    obtain ⟨steady, marked⟩ :=
      lasting.execute started removed (lasting.waits tca member).1 removal kept executed
    rw [if_pos (by rw [marked])] at ran
    cases ran
    refine ⟨steady, fun idle => ?_⟩
    rw [marked, (queueProcess_started started).1] at idle
    cases idle
  · next stopped =>
    cases ran
    refine ⟨.refl lasting, fun idle => ?_⟩
    exact waiting_stopped (by simpa using stopped) idle

/-- A queued action waits, or it is executed at once. -/
theorem Lasting.schedule (runs : RunsTheTwo c) (lasting : Lasting filters w) (still : Still w)
    (removed : w.pinChanges ≠ 0) {tca : TcAction} (live : w.Live tca.data)
    (chain : tca.chainNo = (w.rules.cell tca.data).chainNo)
    (prio : tca.prio = (w.rules.cell tca.data).prio)
    (requests : Requests w.pinChanges (w.rules.cell tca.data) tca.tcr)
    (ready : (w.rules.cell tca.data).type = .static → (w.rules.cell tca.data).haveTcr ≠ none ∨
      w.pinChanges < 2 ∨ w.queue.isBusy = true)
    (ran : queueSchedule c tca (w.setRule tca.data fun rule =>
      { rule with state := .queued, obj := objRef rule.obj }) = .ok w') :
    Steady filters w w' ∧ Still w' := by
  have lasts := lasting.rules tca.data
  have waiting : (w.scheduled tca).waiting = w.waiting ++ [tca] := waiting_enqueue w.queue tca
  have small : Small tca.chainNo := by
    rw [chain]
    exact (lasting.placed.member _ (lasting.inside _ live)).2
  have moved : Lasting filters (w.scheduled tca) ∧ Spares w (w.scheduled tca) := by
    refine lasting.modify (w.rules_scheduled tca) rfl rfl (fun _ _ => .inr rfl)
      (fun _ member => .inl member) (fun _ => ⟨rfl, rfl, rfl⟩)
      ⟨fun present => (state_objRef _).trans (lasts.installed present), lasts.found, lasts.wanted,
        fun static => (kind_objRef _).trans (lasts.live static),
        fun kind => lasts.placed ((kind_objRef _).symm.trans kind), lasts.target⟩
      (fun _ => rfl) (fun _ => live) (if_pos ((kind_objRef _).trans live)).symm
      (fun other member => ?_) (fun other filter member => ?_) rfl .inl
    · rw [waiting] at member
      refine (List.mem_append.mp member).imp_right fun new => ?_
      have same := List.mem_singleton.mp new
      subst same
      refine ⟨small, fun installs => lasts.wanted.mp ?_⟩
      generalize request : other.tcr = tcr at requests
      cases requests with
      | install wanted _ _ => exact wanted
      | uninstall _ _ _ => exact absurd request installs
    · refine (List.mem_append.mp member).imp_right fun new => ⟨removed, fun removal p static here
        position same => ?_⟩
      cases List.mem_singleton.mp new
      -- a static rule at this position is the rule of the action
      have one : p = tca.data := lasting.placed.unique
        (lasting.inside p ((lasting.rules p).live static)) (lasting.inside _ live)
        (here.trans chain) (position.trans prio)
      subst one
      have wanted := lasts.wanted.mpr static
      generalize request : tca.tcr = tcr at requests
      cases requests with
      | install _ _ _ => exact wanted (request ▸ removal)
      | uninstall present differs _ =>
        rcases lasting.kept tca.chainNo tca.prio with empty | same'
        · exact wanted (same ▸ empty)
        · refine differs ?_
          rw [← same, same', chain, prio]
          exact (lasts.found.resolve_left present).symm
  have steady : Steady filters w (w.scheduled tca) := ⟨moved.1, moved.2, rfl, fun p _ => by
    rw [w.rules_scheduled]
    exact Heap.cell_modify_field _ _ _ ObjRule.haveTcr fun _ => rfl⟩
  change (if (w.scheduled tca).queue.isBusy then Except.ok (w.scheduled tca)
    else c.queueProcessLoop (w.scheduled tca)) = _ at ran
  split at ran
  · next busy =>
    cases ran
    exact ⟨steady, fun idle => by simp [busy] at idle⟩
  · next idle =>
    obtain ⟨depth, ran⟩ := runs.processLoop ran
    have idle' : w.queue.isBusy = false := by simpa [World.scheduled, Queue.enqueue] using idle
    have head : ∀ other ∈ (w.scheduled tca).waiting.head?, other.tcr = none ∧
        (((w.scheduled tca).rules.cell other.data).type = .static →
          ((w.scheduled tca).rules.cell other.data).haveTcr ≠ none) := by
      rw [waiting, still idle']
      rintro other ⟨⟩
      rw [w.rules_scheduled, Heap.cell_modify_same]
      generalize tca.tcr = tcr at requests
      cases requests with
      | install wanted absent two =>
        rcases ready (lasts.wanted.mp wanted) with present | early | busy
        · exact absurd absent present
        · omega
        · rw [idle'] at busy
          cases busy
      | uninstall present _ _ => exact ⟨rfl, fun _ => present⟩
    obtain ⟨run, still'⟩ := moved.1.process removed head ran
    exact ⟨steady.trans run lasting.static_bound, still'⟩

/-- `obj_rule_update_state`, as long as it does not send the install of a static rule. -/
theorem Lasting.update (runs : RunsTheTwo c) (lasting : Lasting filters w) (still : Still w)
    (ready : (w.rules.cell r).type = .static → (w.rules.cell r).haveTcr ≠ none ∨
      w.pinChanges < 2 ∨ w.queue.isBusy = true)
    (ran : objRuleUpdateState c r w = .ok w') : Steady filters w w' ∧ Still w' := by
  have lasts := lasting.rules r
  cases objRuleUpdateState_updated ran with
  | skipped _ same =>
    subst same
    exact ⟨.refl lasting, still⟩
  | settled state _ live _ _ same =>
    subst same
    obtain ⟨lasting', spares⟩ := lasting.set (r := r) (f := fun rule => { rule with state })
      (fun _ => ⟨rfl, rfl, rfl⟩)
      ⟨lasts.installed, lasts.found, lasts.wanted, lasts.live, lasts.placed, lasts.target⟩
      (fun _ => rfl) live live
    exact ⟨⟨lasting', spares, rfl, fun p _ => by
      rw [rules_setRule]
      exact Heap.cell_modify_field _ _ _ ObjRule.haveTcr fun _ => rfl⟩, still⟩
  | confirmed t _ _ _ _ _ target _ =>
    rw [lasts.target] at target
    cases target
  | scheduled tca same removed live _ chain prio requests ran =>
    subst same
    exact lasting.schedule runs still removed live chain prio requests ready ran

/-- The search of a report finds every rule of the tree at the position. -/
theorem Placed.search (placed : Placed w) {chainNo : UInt32} {prio : UInt16} {tcr : TcRule}
    (inside : r ∈ w.posTree.toList) (chain : (w.rules.cell r).chainNo = chainNo)
    (position : (w.rules.cell r).prio = prio) {found : Option RuleId}
    (search : objRuleFind chainNo prio tcr w = .ok found) : found = some r := by
  subst chain position
  rw [objRuleFind, placed.find inside] at search
  exact (Except.ok.inj search).symm

/-- A report of a filter that the kernel had at the start. -/
theorem Lasting.found (runs : RunsTheTwo c) (lasting : Lasting filters w) (still : Still w)
    {chainNo : UInt32} {prio : UInt16} {tcr : TcRule} (small : Small chainNo)
    (first : some tcr = filters chainNo prio)
    (ran : objRuleNetlinkFound c chainNo prio tcr w = .ok w') :
    Lasting filters w' ∧ Spares w w' ∧ Still w' := by
  have heard : Lasting filters (w.hears ⟨chainNo, prio, some tcr⟩) :=
    lasting.keep rfl rfl rfl rfl (fun _ member => member) rfl (fun _ member => member)
      (fun tca filter member => (List.mem_append.mp member).resolve_right (by simp))
      fun zero => ⟨zero, id⟩
  have spares : Spares w (w.hears ⟨chainNo, prio, some tcr⟩) :=
    ⟨⟨Nat.le_refl _, fun _ _ => ⟨rfl, rfl, rfl⟩⟩, fun _ _ => rfl⟩
  have updated : ∀ {w₁ : World} {r : RuleId},
      Lasting filters w₁ ∧ Spares (w.hears ⟨chainNo, prio, some tcr⟩) w₁ → Still w₁ →
      (w₁.rules.cell r).haveTcr ≠ none → c.objRuleUpdateState r w₁ = .ok w' →
      Lasting filters w' ∧ Spares w w' ∧ Still w' := by
    intro w₁ r moved still₁ present ran
    obtain ⟨depth, ran⟩ := runs.updateState ran
    obtain ⟨steady, still'⟩ := moved.1.update (calls_runs depth) still₁ (fun _ => .inl present) ran
    refine ⟨steady.lasting, ?_, still'⟩
    exact (spares.trans moved.2 lasting.static_bound).trans steady.spares lasting.static_bound
  simp only [objRuleNetlinkFound, objRuleFind_hears] at ran
  obtain ⟨found, search, ran⟩ := bind_returned ran
  cases found with
  | none =>
    obtain ⟨w₁, inPos, ran⟩ := bind_returned ran
    obtain ⟨w₂, inLaf, ran⟩ := bind_returned ran
    obtain ⟨_, pos, laf, -, -, -, link, -, rfl⟩ := objRuleNew_alloc inPos inLaf
    obtain ⟨lookup, search⟩ : objRulePosLookup chainNo prio w = .ok none ∧ True := by
      obtain ⟨found, lookup, search⟩ := bind_returned search
      cases found with
      | none => exact ⟨lookup, trivial⟩
      | some r => cases search
    obtain ⟨linked, link'⟩ := lasting.placed.link lasting.bound lookup
      (show (objRuleAlloc { chainNo, prio, haveTcr := some tcr, obj := { state := .installed } }
          (w.hears ⟨chainNo, prio, some tcr⟩)).2.rules = w.rules.alloc {
        chainNo, prio, haveTcr := some tcr, obj := { state := .installed, kind := .rule } } from
        rfl) w.rules.next
    have some' : pos = some linked := Except.ok.inj (link.symm.trans link')
    subst some'
    refine updated ?_ ?_ ?_ ran
    · exact heard.alloc rfl rfl small rfl
        ⟨fun _ => rfl, .inr first, ⟨fun wanted => absurd rfl wanted, ObjRuleType.noConfusion⟩,
          ObjRuleType.noConfusion, fun _ => rfl, rfl⟩ link
        (w.balancing.insertColor_toList w.rules.next linked) rfl rfl rfl rfl rfl
        ObjRuleType.noConfusion
    · exact still
    · simp [objRuleAlloc]
  | some r =>
    obtain ⟨rule, followed, ran⟩ := bind_returned ran
    obtain ⟨live, rfl⟩ := rule_ok followed
    obtain ⟨_, chain, ran⟩ := bind_returned ran
    obtain ⟨_, position, ran⟩ := bind_returned ran
    have lasts := lasting.rules r
    have chain := of_require chain
    have position := of_require position
    split at ran
    · cases ran
      exact ⟨heard, spares, still⟩
    · refine updated ?_ ?_ ?_ ran
      · refine heard.set (fun _ => ⟨rfl, rfl, rfl⟩) ⟨fun _ => ?_, .inr ?_, lasts.wanted,
          fun static => ?_, fun _ => lasts.placed live, lasts.target⟩ (fun _ => rfl) live ?_
        · dsimp only
          split
          · rfl
          · next present => exact lasts.installed present
        · exact first.trans (congrArg₂ filters chain position).symm
        · dsimp only
          split <;> exact live
        · dsimp only
          split <;> exact live
      · exact still
      · rw [cell_setRule]
        exact Option.some_ne_none tcr

/-- While a request is outstanding an update adds a reference to a rule that is wanted and
absent, unless an action waits for it already. -/
theorem Updated.twice (updated : Updated c r w w') (wanted : (w.rules.cell r).wantTcr ≠ none)
    (absent : (w.rules.cell r).haveTcr = none) (pins : 2 ≤ w.pinChanges)
    (busy : w.queue.isBusy = true) (alive : (w.rules.cell r).obj.state ≠ .zombie)
    (counted : 0 < w.refcnt r) (queued : (w.rules.cell r).state = .queued → 1 < w.refcnt r) :
    1 < w'.refcnt r := by
  cases updated with
  | skipped skips same =>
    subst same
    cases skips with
    | pinned zero => omega
    | queued waits => exact queued waits
    | new unwanted _ _ => exact absurd unwanted wanted
  | settled state _ _ _ settles _ =>
    cases settles with
    | zombie unwanted _ _ => exact absurd unwanted wanted
    | want _ _ early => omega
    | alien present _ _ => exact absurd absent present
    | ok present _ _ => exact absurd absent present
  | confirmed _ _ _ _ present _ _ _ => exact absurd absent present
  | scheduled tca same _ _ _ _ _ _ ran =>
    subst same
    rw [queueSchedule] at ran
    dsimp only at ran
    rw [if_pos (by simpa [Queue.enqueue] using busy)] at ran
    cases ran
    rw [World.refcnt] at counted ⊢
    dsimp only
    rw [cell_setRule]
    change 1 < (objRef _).refcnt
    rw [refcnt_objRef alive]
    omega

/-- A reported removal; at the position of a static rule only while a request is outstanding. -/
theorem Lasting.gone (runs : RunsTheTwo c) (lasting : Lasting filters w) (still : Still w)
    (counted : ∀ r, (w.rules.cell r).state = .queued → 0 < w.refcnt r)
    (alive : ∀ r, w.Live r → (w.rules.cell r).obj.state ≠ .zombie)
    (pins : w.pinChanges = 0 ∨ w.pinChanges = 3) {chainNo : UInt32} {prio : UInt16} {tcr : TcRule}
    (busy : ∀ r ∈ w.posTree.toList, (w.rules.cell r).chainNo = chainNo →
      (w.rules.cell r).prio = prio → (w.rules.cell r).type = .static → w.queue.isBusy = true)
    (ran : objRuleNetlinkGone c chainNo prio tcr w = .ok w') :
    Lasting filters w' ∧ Spares w w' ∧ Still w' := by
  have heard : Lasting filters (w.hears ⟨chainNo, prio, none⟩) :=
    lasting.keep rfl rfl rfl rfl (fun _ member => member) rfl (fun _ member => member)
      (fun tca filter member => (List.mem_append.mp member).resolve_right (by simp))
      fun zero => ⟨zero, id⟩
  have spares : Spares w (w.hears ⟨chainNo, prio, none⟩) :=
    ⟨⟨Nat.le_refl _, fun _ _ => ⟨rfl, rfl, rfl⟩⟩, fun _ _ => rfl⟩
  simp only [objRuleNetlinkGone, objRuleFind_hears] at ran
  obtain ⟨found, search, ran⟩ := bind_returned ran
  cases found with
  | none =>
    cases ran
    exact ⟨heard, spares, still⟩
  | some r =>
    obtain ⟨rule, followed, ran⟩ := bind_returned ran
    obtain ⟨live, -⟩ := rule_ok followed
    have lasts := lasting.rules r
    have inside := lasting.inside r live
    obtain ⟨chain, position⟩ := objRuleFind_some search
    rw [objRuleDelete, objRuleRef_live live, ok_bind] at ran
    simp only [setRule_setRule] at ran
    obtain ⟨rule, followed, ran⟩ := bind_returned ran
    obtain ⟨-, rfl⟩ := rule_ok followed
    rw [cell_setRule] at ran
    generalize emptied : (w.hears ⟨chainNo, prio, none⟩).setRule r (fun rule =>
      { rule with obj := { objRef rule.obj with state := .present }, haveTcr := none }) = w₁ at ran
    have moved : Lasting filters w₁ ∧ Spares (w.hears ⟨chainNo, prio, none⟩) w₁ := by
      rw [← emptied]
      exact heard.set (fun _ => ⟨rfl, rfl, rfl⟩)
        ⟨fun present => absurd rfl present, .inl rfl, lasts.wanted,
          fun _ => (kind_objRef _).trans live, fun _ => lasts.placed live, lasts.target⟩
        (fun _ => rfl) live ((kind_objRef _).trans live)
    have spares₁ := spares.trans moved.2 lasting.static_bound
    have cell : w₁.rules.cell r = { w.rules.cell r with
        obj := { objRef (w.rules.cell r).obj with state := .present }, haveTcr := none } := by
      rw [← emptied, cell_setRule, World.rules_hears]
    have queue : w₁.queue = w.queue := by
      rw [← emptied]
      rfl
    have pins₁ : w₁.pinChanges = w.pinChanges := by
      rw [← emptied]
      rfl
    have still₁ : Still w₁ := by
      rw [Still, World.waiting, queue]
      exact still
    have more : w₁.refcnt r = w.refcnt r + 1 := by
      rw [World.refcnt, cell]
      exact refcnt_objRef (alive r live)
    dsimp only at ran
    split at ran
    · next wanted =>
      have static := lasts.wanted.mp (Option.isSome_iff_ne_none.mp wanted)
      have outstanding := busy r inside chain position static
      obtain ⟨w₂, updated, ran⟩ := bind_returned ran
      obtain ⟨depth, updated⟩ := runs.updateState updated
      obtain ⟨steady, still₂⟩ := moved.1.update (calls_runs depth) still₁
        (fun _ => .inr (.inr (by rw [queue]; exact outstanding))) updated
      have removed : w.pinChanges = 3 := pins.resolve_left fun zero => by
        rw [(lasting.early zero).1] at outstanding
        cases outstanding
      have twice : 1 < w₂.refcnt r := by
        refine (objRuleUpdateState_updated updated).twice ?_ ?_ ?_ ?_ ?_ ?_ fun queued => ?_
        · rw [cell]
          exact lasts.wanted.mpr static
        · rw [cell]
        · rw [pins₁]
          omega
        · rw [queue]
          exact outstanding
        · rw [cell]
          exact ObjState.noConfusion
        · omega
        · rw [cell] at queued
          have := counted r queued
          omega
      have released := steady.lasting.unref (fun _ => .inr twice) ran
      refine ⟨released.1.lasting, (spares₁.trans steady.spares lasting.static_bound).trans
        released.1.spares lasting.static_bound, ?_⟩
      rw [Still, World.waiting, released.2.1]
      exact still₂
    · next unwanted =>
      obtain ⟨_, same, ran⟩ := bind_returned ran
      cases same
      have dynamic : (w.rules.cell r).type ≠ .static := fun static =>
        unwanted (Option.isSome_iff_ne_none.mpr (lasts.wanted.mpr static))
      have released := moved.1.unref (fun static => absurd (by rwa [cell] at static) dynamic) ran
      refine ⟨released.1.lasting, spares₁.trans released.1.spares lasting.static_bound, ?_⟩
      rw [Still, World.waiting, released.2.1]
      exact still₁

/-- One pass of `obj_rule_remove_pin` over static rules that are all reported. -/
theorem Lasting.removePinPass (runs : RunsTheTwo c) (lasting : Lasting filters w) (still : Still w)
    (present : ∀ r, (w.rules.cell r).type = .static → (w.rules.cell r).haveTcr ≠ none)
    (rounds : Nat) (next : Option RuleId) (ran : objRuleRemovePinPass c rounds next w = .ok w') :
    Steady filters w w' ∧ Still w' := by
  induction rounds generalizing next w with
  | zero =>
    cases next with
    | none =>
      cases ran
      exact ⟨.refl lasting, still⟩
    | some r => cases ran
  | succ rounds ih =>
    cases next with
    | none =>
      cases ran
      exact ⟨.refl lasting, still⟩
    | some r =>
      obtain ⟨w₁, updated, ran⟩ := bind_returned ran
      obtain ⟨depth, updated⟩ := runs.updateState updated
      obtain ⟨steady, still₁⟩ := lasting.update (calls_runs depth) still
        (fun static => .inl (present r static)) updated
      obtain ⟨next, -, ran⟩ := bind_returned ran
      have present₁ : ∀ r, (w₁.rules.cell r).type = .static → (w₁.rules.cell r).haveTcr ≠ none :=
        fun p static => by
          rw [steady.present p (steady.static static)]
          exact present p (steady.static static)
      obtain ⟨later, still₂⟩ := ih steady.lasting still₁ present₁ next ran
      exact ⟨steady.trans later lasting.static_bound, still₂⟩

/-- `obj_rule_remove_pin` where all static rules are reported. -/
theorem Lasting.removePin (runs : RunsTheTwo c) (lasting : Lasting filters w) (still : Still w)
    (present : w.pinChanges = 0 → ∀ r ∈ w.posTree.toList,
      (w.rules.cell r).type = .static → (w.rules.cell r).haveTcr ≠ none)
    (pins : w.pinChanges = 0 ∨ w.pinChanges = 3) (rounds : Nat)
    (ran : objRuleRemovePin c rounds w = .ok w') :
    Lasting filters w' ∧ Spares w w' ∧ Still w' := by
  rw [objRuleRemovePin] at ran
  split at ran
  · cases ran
    exact ⟨lasting, .refl w, still⟩
  · have zero : w.pinChanges = 0 := by omega
    have present' : ∀ r, (w.rules.cell r).type = .static → (w.rules.cell r).haveTcr ≠ none :=
      fun r static => present zero r (lasting.inside r ((lasting.rules r).live static)) static
    have pass : ∀ {w₁ w₂ : World} (pin : Nat), Steady filters w w₁ ∧ Still w₁ →
        (pin = 0 → w₁.pinChanges = 0) →
        objRuleRemovePinPass c rounds w₁.posTree.toList.head? { w₁ with pinChanges := pin } =
          .ok w₂ → Steady filters w w₂ ∧ Still w₂ := by
      intro w₁ w₂ pin before same passed
      obtain ⟨steady, still₁⟩ := before
      have raised : Lasting filters { w₁ with pinChanges := pin } :=
        steady.lasting.keep rfl rfl rfl rfl (fun _ member => member) rfl (fun _ member => member)
          (fun _ _ member => member) fun zero => ⟨same zero, id⟩
      obtain ⟨later, still₂⟩ := raised.removePinPass runs still₁ (fun r static => by
        rw [steady.present r (steady.static static)]
        exact present' r (steady.static static)) rounds _ passed
      have moved : Steady filters w { w₁ with pinChanges := pin } :=
        ⟨raised, ⟨⟨steady.spares.next, steady.spares.place⟩, steady.spares.want⟩, steady.next,
          steady.present⟩
      exact ⟨moved.trans later lasting.static_bound, still₂⟩
    simp only [List.foldlM_cons, List.foldlM_nil, bind_pure] at ran
    obtain ⟨w₁, first, ran⟩ := bind_returned ran
    obtain ⟨w₂, second, ran⟩ := bind_returned ran
    obtain ⟨w₃, third, ran⟩ := bind_returned ran
    have done₁ := pass 0 ⟨.refl lasting, still⟩ (fun _ => zero) first
    have done₂ := pass 1 done₁ (fun one => absurd one (by decide)) second
    have done₃ := pass 2 done₂ (fun two => absurd two (by decide)) third
    obtain ⟨steady, still'⟩ := pass 3 done₃ (fun three => absurd three (by decide)) ran
    exact ⟨steady.lasting, steady.spares, still'⟩

end Functions

/-- The events that concern static rules, as far as they spare them. -/
def RuleEvent.Sparing (s : Owners) : RuleEvent → Prop
  | .staticWant chainNo _ _ => s.world.pinChanges = 0 ∧ Small chainNo
  | .removePin => s.world.pinChanges = 0 → ∀ r ∈ s.world.posTree.toList,
      (s.world.rules.cell r).type = .static → (s.world.rules.cell r).haveTcr ≠ none
  | .completed => ∀ tca ∈ s.world.waiting.head?, (s.world.rules.cell tca.data).type = .static →
      tca.tcr = none ∧ (s.world.rules.cell tca.data).haveTcr ≠ none
  | .notified => ∀ note ∈ s.world.kernel.notes.head?, note.filter = none →
      ∀ r ∈ s.world.posTree.toList, (s.world.rules.cell r).chainNo = note.chainNo →
        (s.world.rules.cell r).prio = note.prio → (s.world.rules.cell r).type = .static →
        s.world.queue.isBusy = true
  | _ => False

instance (s : Owners) (e : RuleEvent) : Decidable (e.Sparing s) :=
  match e with
  | .staticWant .. => inferInstanceAs (Decidable (_ ∧ _))
  | .removePin => inferInstanceAs (Decidable (s.world.pinChanges = 0 → _))
  | .completed => inferInstanceAs (Decidable (∀ tca ∈ s.world.waiting.head?, _))
  | .notified => inferInstanceAs (Decidable (∀ note ∈ s.world.kernel.notes.head?, _))
  | .request _ | .uninstall _ | .ref _ | .unref _ | .message .. | .foreign _ | .echoing _ =>
    inferInstanceAs (Decidable False)

/-- The process has just started: the kernel has any filters, and reports some of them. -/
structure World.Booted (w : World) : Prop where
  blank : { w with kernel := { w.kernel with notes := [] } }.Blank
  normal : w.mode = .normal
  silent : w.kernel.echoes = false
  notes : ∀ note ∈ w.kernel.notes, Small note.chainNo ∧ note.filter ≠ none ∧
    note.filter = w.kernel.filters note.chainNo note.prio

namespace World.Booted

/-- A process that has just started is in order. -/
theorem orderly (booted : w.Booted) : Orderly {} w :=
  @Orderly.keep {} _ w booted.blank.orderly rfl rfl rfl rfl rfl
    booted.blank.orderly.states.pinned rfl none

/-- Nothing has happened to static rules yet. -/
theorem lasting (booted : w.Booted) : Lasting w.kernel.filters w := by
  obtain ⟨conn, queue⟩ := booted.blank.queue
  have queue : w.queue = { conn := some conn } := queue
  have waiting : w.waiting = [] := by rw [World.waiting, queue]; rfl
  have cell : ∀ r, w.rules.cell r = default := fun r => by rw [booted.blank.rules]
  have tree : w.posTree = .leaf := booted.blank.posTree
  have dead : ∀ r, ¬ w.Live r := fun r live => by
    rw [World.Live, cell] at live
    cases live
  refine ⟨booted.silent, booted.normal, fun _ _ => .inr rfl, fun note member => ?_, fun r => ?_,
    fun r live => absurd live (dead r), ⟨?_, ?_⟩, fun r live => absurd live (dead r), ?_, ?_, ?_⟩
  · obtain ⟨small, -, same⟩ := booted.notes note member
    exact ⟨small, .inr same⟩
  · rw [cell]
    exact ⟨fun present => absurd rfl present, .inl rfl,
      ⟨fun wanted => absurd rfl wanted, ObjRuleType.noConfusion⟩, ObjRuleType.noConfusion,
      ObjKind.noConfusion, rfl⟩
  · rw [tree]
    exact fun _ member => absurd member List.not_mem_nil
  · rw [tree]
    exact List.Pairwise.nil
  · rw [waiting]
    exact fun _ member => absurd member List.not_mem_nil
  · rw [booted.blank.log]
    exact fun _ _ member => absurd member List.not_mem_nil
  · rw [booted.blank.log, queue]
    exact fun _ => ⟨rfl, fun _ _ member => absurd member List.not_mem_nil⟩

/-- Nothing waits yet. -/
theorem still (booted : w.Booted) : Still w := by
  obtain ⟨conn, queue⟩ := booted.blank.queue
  have queue : w.queue = { conn := some conn } := queue
  rw [Still, World.waiting, queue]
  exact fun _ => rfl

end World.Booted

/-- `obj_rule_static_want` before the pins are removed makes a static rule. -/
theorem RuleEvent.run_staticWant {s s' : Owners} {chainNo : UInt32} {prio : UInt16} {tcr : TcRule}
    {bound : Nat} (lasting : Lasting filters s.world) (still : Still s.world)
    (sparing : (RuleEvent.staticWant chainNo prio tcr).Sparing s)
    (ran : (RuleEvent.staticWant chainNo prio tcr).run bound s = .ok s') :
    Lasting filters s'.world ∧ Spares s.world s'.world ∧ Still s'.world ∧
      (s'.world.rules.cell s.world.rules.next).type = .static ∧
      (s'.world.rules.cell s.world.rules.next).wantTcr = some tcr ∧
      (s'.world.rules.cell s.world.rules.next).chainNo = chainNo ∧
      (s'.world.rules.cell s.world.rules.next).prio = prio := by
  have runs := calls_runs bound
  obtain ⟨early, small⟩ := sparing
  obtain ⟨w, wants, ran⟩ := bind_returned ran
  cases ran
  obtain ⟨found, search, wants⟩ := bind_returned wants
  obtain ⟨_, free, wants⟩ := bind_returned wants
  rw [of_require free] at search
  obtain ⟨w₁, inserted, wants⟩ := bind_returned wants
  obtain ⟨-, pos, link, rfl⟩ := objRulePosInsert_alloc inserted
  obtain ⟨linked, link'⟩ := lasting.placed.link lasting.bound search
    (show (objRuleAlloc { chainNo, prio, type := .static, wantTcr := some tcr } s.world).2.rules =
        s.world.rules.alloc {
      chainNo, prio, type := .static, wantTcr := some tcr, obj := { kind := .rule } } from rfl)
    s.world.rules.next
  have some' : pos = some linked := Except.ok.inj (link.symm.trans link')
  subst some'
  obtain ⟨depth, wants⟩ := runs.updateState wants
  generalize new : ({ (objRuleAlloc { ({ chainNo, prio, type := .static, wantTcr := some tcr } :
    ObjRule) with havePos := (some linked).isSome } s.world).2 with
    posTree := ((some linked).map (s.world.balancing.insertColor s.world.rules.next)).getD
      s.world.posTree } : World) = w₁ at wants
  have moved : Lasting filters w₁ ∧ Spares s.world w₁ := by
    rw [← new]
    exact lasting.alloc rfl rfl small rfl ⟨fun present => absurd rfl present, .inl rfl,
      ⟨fun _ => rfl, fun _ => Option.some_ne_none tcr⟩, fun _ => rfl, fun _ => rfl, rfl⟩ link
      (s.world.balancing.insertColor_toList _ linked) rfl rfl rfl rfl rfl fun _ => early
  have still₁ : Still w₁ := by
    rw [← new]
    exact still
  have early₁ : w₁.pinChanges = 0 := by
    rw [← new]
    exact early
  obtain ⟨steady, still₂⟩ := moved.1.update (calls_runs depth) still₁
    (fun _ => .inr (.inl (by omega))) wants
  have cell : w₁.rules.cell s.world.rules.next = {
      chainNo, prio, type := .static, wantTcr := some tcr, havePos := true,
      obj := { kind := .rule } } := by
    rw [← new]
    exact Heap.cell_alloc_same ..
  have static : (w₁.rules.cell s.world.rules.next).type = .static := by rw [cell]
  obtain ⟨chain, position, type⟩ := steady.spares.place _ (moved.1.static_bound _ static)
  refine ⟨steady.lasting, moved.2.trans steady.spares lasting.static_bound, still₂,
    type.trans static, (steady.spares.want _ static).trans ?_, chain.trans ?_, position.trans ?_⟩
  all_goals rw [cell]

/-- A sparing event. -/
theorem RuleEvent.run_lasting {s s' : Owners} {e : RuleEvent} {bound : Nat}
    (between : Between Orderly s) (lasting : Lasting filters s.world) (still : Still s.world)
    (sparing : e.Sparing s) (ran : e.run bound s = .ok s') :
    Lasting filters s'.world ∧ Spares s.world s'.world ∧ Still s'.world := by
  have runs := calls_runs bound
  cases e with
  | staticWant chainNo prio tcr =>
    obtain ⟨lasting', spares, still', -⟩ := RuleEvent.run_staticWant lasting still sparing ran
    exact ⟨lasting', spares, still'⟩
  | removePin =>
    obtain ⟨w, removed, ran⟩ := bind_returned ran
    cases ran
    exact lasting.removePin runs still sparing between.pins bound removed
  | completed =>
    obtain ⟨w, processed, ran⟩ := bind_returned ran
    cases ran
    obtain ⟨⟨tca, queue⟩, completed, processed⟩ := bind_returned processed
    obtain ⟨busy, idle⟩ := handleQueueCompleted_busy completed
    have waiting := waiting_handleQueueCompleted completed
    have moved : Lasting filters { s.world with queue } :=
      lasting.keep rfl rfl rfl rfl (fun _ member => member) rfl
        (fun tca member => waiting ▸ member) (fun _ _ member => member) fun zero => ⟨zero, fun _ => idle⟩
    have spares : Spares s.world { s.world with queue } :=
      ⟨⟨Nat.le_refl _, fun _ _ => ⟨rfl, rfl, rfl⟩⟩, fun _ _ => rfl⟩
    dsimp only at processed
    split at processed
    · obtain ⟨depth, processed⟩ := runs.processLoop processed
      have removed : s.world.pinChanges ≠ 0 := fun zero => by
        rw [(lasting.early zero).1] at busy
        cases busy
      obtain ⟨steady, still'⟩ := moved.process removed (fun other first => by
        rw [waiting] at first
        have member : other ∈ s.world.waiting := List.mem_of_mem_head? first
        refine ⟨?_, fun static => (sparing other first static).2⟩
        by_contra installs
        exact installs (sparing other first ((lasting.waits other member).2 installs)).1) processed
      exact ⟨steady.lasting, spares.trans steady.spares lasting.static_bound, still'⟩
    · next stopped =>
      cases processed
      exact ⟨moved, spares, fun _ => waiting_stopped (by simpa using stopped) idle⟩
  | notified =>
    rw [RuleEvent.run] at ran
    cases notes : s.world.kernel.notes with
    | nil =>
      rw [notes] at ran
      cases ran
      exact ⟨lasting, .refl _, still⟩
    | cons note rest =>
      rw [notes] at ran
      obtain ⟨w, reported, ran⟩ := bind_returned ran
      cases ran
      have first : note ∈ s.world.kernel.notes := by simp [notes]
      obtain ⟨small, content⟩ := lasting.notes note first
      have moved : Lasting filters { s.world with
          kernel := { s.world.kernel with notes := rest } } :=
        lasting.keep rfl rfl rfl rfl (fun _ member => by simp [notes, member]) rfl
          (fun _ member => member) (fun _ _ member => member) fun zero => ⟨zero, id⟩
      have still' : Still { s.world with kernel := { s.world.kernel with notes := rest } } := still
      have counted : ∀ r, (s.world.rules.cell r).state = .queued → 0 < s.world.refcnt r := by
        intro r queued
        obtain ⟨tca, member, rfl⟩ := between.kept.states.queued r queued
        have claimed := claims_waiting (g := s.ghost) member
        have covered := between.kept.sound.counts.covered tca.data
        exact Nat.lt_of_lt_of_le claimed (by omega)
      have same : Spares s.world { s.world with kernel := { s.world.kernel with notes := rest } } :=
        ⟨⟨Nat.le_refl _, fun _ _ => ⟨rfl, rfl, rfl⟩⟩, fun _ _ => rfl⟩
      rw [objRuleNotified] at reported
      split at reported
      · next tcr filter =>
        rw [filter] at content
        have done := moved.found runs still' small
          (content.resolve_left (Option.some_ne_none tcr)) reported
        exact ⟨done.1, same.trans done.2.1 lasting.static_bound, done.2.2⟩
      · next removal =>
        have done := moved.gone runs still' counted
          (fun r live => (between.kept.sound.counts.alive r live).1) between.pins
          (fun r inside chain prio static =>
            sparing note (by simp [notes]) removal r inside chain prio static) reported
        exact ⟨done.1, same.trans done.2.1 lasting.static_bound, done.2.2⟩
  | _ => exact sparing.elim

/-- A rule that was requested with `obj_rule_static_want` stays throughout every run of sparing
events: it is never reaped, keeps its want, and no uninstall is queued for its position while the
kernel has what it wants there. -/
theorem static_rules_stay {w : World} (booted : w.Booted) {s s₁ s' : Owners} {chainNo : UInt32}
    {prio : UInt16} {tcr : TcRule} {bound : Nat}
    (reached : Owners.Reached RuleEvent.Sparing w s)
    (sparing : (RuleEvent.staticWant chainNo prio tcr).Sparing s)
    (requested : (RuleEvent.staticWant chainNo prio tcr).run bound s = .ok s₁)
    (later : Relation.ReflTransGen (Owners.Step RuleEvent.Sparing) s₁ s') :
    s'.world.Live s.world.rules.next ∧
    (s'.world.rules.cell s.world.rules.next).wantTcr = some tcr ∧
    ∀ tca filter, .queued tca filter ∈ s'.world.log → tca.tcr = none → tca.chainNo = chainNo →
      tca.prio = prio → filter ≠ some tcr := by
  have between : ∀ {s}, Owners.Reached RuleEvent.Sparing w s → Between Orderly s := fun reached =>
    (reached.mono fun _ _ _ => trivial).between carries_orderly booted.blank.pinChanges
      booted.orderly
  have lasting : ∀ {s}, Owners.Reached RuleEvent.Sparing w s →
      Lasting w.kernel.filters s.world ∧ Still s.world := by
    intro s reached
    induction reached with
    | start => exact ⟨booted.lasting, booted.still⟩
    | step before _ met ran ih =>
      obtain ⟨lasting, -, still⟩ := RuleEvent.run_lasting (between before) ih.1 ih.2 met ran
      exact ⟨lasting, still⟩
  have reached₁ : Owners.Reached RuleEvent.Sparing w s₁ := reached.step (e := .staticWant chainNo prio tcr) trivial sparing requested
  obtain ⟨static, want, chain, position⟩ :=
    (RuleEvent.run_staticWant (lasting reached).1 (lasting reached).2 sparing requested).2.2.2
  have kept : ∀ s', Relation.ReflTransGen (Owners.Step RuleEvent.Sparing) s₁ s' →
      Spares s₁.world s'.world := by
    intro s' later
    induction later with
    | refl => exact .refl _
    | tail before step ih =>
      obtain ⟨e, bound, _, met, ran⟩ := step
      have there := reached₁.steps before
      obtain ⟨-, spares, -⟩ :=
        RuleEvent.run_lasting (between there) (lasting there).1 (lasting there).2 met ran
      exact ih.trans spares (lasting reached₁).1.static_bound
  have spares := kept s' later
  have lasting' := (lasting (reached₁.steps later)).1
  obtain ⟨chain', position', type'⟩ :=
    spares.place _ ((lasting reached₁).1.static_bound _ static)
  have static' := type'.trans static
  have want' := (spares.want _ static).trans want
  refine ⟨(lasting'.rules _).live static', want', fun tca filter member removal here there => ?_⟩
  rw [← want']
  exact lasting'.log tca filter member removal _ static' (chain'.trans (chain.trans here.symm))
    (position'.trans (position.trans there.symm))

/-- The rule that `request_ttl_check` makes for IPv4. -/
def ttlCheckRule : TcRule where
  type := .ttlCheck
  traits := typeTraits .ttlCheck
  afAddr := ⟨afInet, 0, 0, 0⟩

/-- A process that starts on a kernel that has the TTL check already. -/
def restartedWorld : World where
  queue := { conn := some 0 }
  kernel := {
    filters := fun chainNo prio => if chainNo = 1 ∧ prio = 1 then some ttlCheckRule else none
    notes := [⟨1, 1, some ttlCheckRule⟩] }

theorem restartedWorld_booted : restartedWorld.Booted where
  blank := ⟨rfl, rfl, rfl, rfl, rfl, rfl, rfl, rfl, ⟨0, rfl⟩, rfl, rfl⟩
  normal := rfl
  silent := rfl
  notes := by decide

/-- The TTL check is requested, its filter is reported and the pins are removed. -/
theorem static_rules_stay_restarted :
    ∃ s₁ s', (RuleEvent.staticWant 1 1 ttlCheckRule).run 9 { world := restartedWorld } = .ok s₁ ∧
      s₁.playWhile (fun s e => e.Sparing s) 9 [.notified, .removePin] = .ok s' ∧
      s'.world.pinChanges = 3 ∧ s'.world.Live 0 ∧
      (s'.world.rules.cell 0).wantTcr = some ttlCheckRule := by
  refine ⟨_, _, rfl, rfl, rfl, ?_⟩
  have stays := static_rules_stay restartedWorld_booted .start
    (show (RuleEvent.staticWant 1 1 ttlCheckRule).Sparing { world := restartedWorld } from
      ⟨rfl, by decide⟩)
    (show (RuleEvent.staticWant 1 1 ttlCheckRule).run 9 _ = .ok _ from rfl)
    (Owners.playWhile_steps (show Owners.playWhile (fun s e => e.Sparing s) 9
      [.notified, .removePin] _ = .ok _ from rfl))
  exact ⟨stays.1, stays.2.1⟩

/-- A process that starts on a kernel with another filter at the place of the TTL check. -/
def occupiedWorld : World where
  queue := { conn := some 0 }
  kernel := {
    filters := fun chainNo prio =>
      if chainNo = 1 ∧ prio = 1 then some { ttlCheckRule with afAddr := ⟨afInet6, 0, 0, 0⟩ } else none
    notes := [⟨1, 1, some { ttlCheckRule with afAddr := ⟨afInet6, 0, 0, 0⟩ }⟩] }

theorem occupiedWorld_booted : occupiedWorld.Booted where
  blank := ⟨rfl, rfl, rfl, rfl, rfl, rfl, rfl, rfl, ⟨0, rfl⟩, rfl, rfl⟩
  normal := rfl
  silent := rfl
  notes := by decide

/-- A static rule that the kernel does not have yet is reaped when its install is sent. Removing
the pins reads it after that. Where its filter is reported later, that filter is uninstalled. -/
theorem static_rules_reaped :
    Owners.play 9 [.staticWant 1 1 ttlCheckRule, .removePin] { world := blankWorld } =
      .error .freedObject ∧
    occupiedWorld.Booted ∧
    ∃ s, Owners.play 9 [.staticWant 1 1 ttlCheckRule, .notified, .removePin, .completed, .notified,
        .notified] { world := occupiedWorld } = .ok s ∧
      ¬ s.world.Live 0 ∧ .queued ⟨1, 1, none, 1⟩ (some ttlCheckRule) ∈ s.world.log := by
  refine ⟨rfl, occupiedWorld_booted, _, rfl, ?_, ?_⟩
  · exact (nomatch ·)
  · decide

end FlowerRoute
