import FlowerRoute.Verif.Calm
import FlowerRoute.Verif.PositionRuns

/-!
# The kernel's filters behind the rules

Under a kernel that reports inside the call that sends a request, what a rule has is the filter at
its position, except while the report of a change is on its way. No request is ever refused: what
is installed was not there, and what is removed was.
-/

namespace FlowerRoute

open Outcome

/-- What holds of a rule, with what a function under way does next. -/
structure ObjRule.Mirrors (task : Option Task) (k : Kernel) (rule : ObjRule) : Prop where
  notLost : rule.haveLaf = false
  installed : rule.haveTcr ≠ none → rule.obj.state = .installed
  filter : k.filters rule.chainNo rule.prio = rule.haveTcr ∨
    task = some (.report ⟨rule.chainNo, rule.prio, k.filters rule.chainNo rule.prio⟩)

/-- A report on its way is about a rule whose action was executed, and it is news for it. -/
structure World.Reports (w : World) (note : Note) (r : RuleId) : Prop where
  live : w.Live r
  chainNo : (w.rules.cell r).chainNo = note.chainNo
  prio : (w.rules.cell r).prio = note.prio
  filter : w.kernel.filters note.chainNo note.prio = note.filter
  pending : (w.rules.cell r).state = .pending
  news : (w.rules.cell r).haveTcr = none ↔ note.filter ≠ none

/-- An action that waits is about its rule's position, and installs there if nothing is there. -/
structure TcAction.Aims (w : World) (tca : TcAction) : Prop where
  chainNo : tca.chainNo = (w.rules.cell tca.data).chainNo
  prio : tca.prio = (w.rules.cell tca.data).prio
  changes : (w.rules.cell tca.data).haveTcr = none ↔ tca.tcr ≠ none

/-- The rules mirror the kernel's filters. -/
structure Mirrored (g : Ghost) (w : World) : Prop where
  echoes : w.kernel.echoes = true
  normal : w.mode = .normal
  placed : Placed w
  flagged : ∀ r ∈ w.posTree.toList, (w.rules.cell r).havePos = true
  small : ∀ r, w.Live r → Small (w.rules.cell r).chainNo
  inside : ∀ r, w.Live r → r ∈ w.posTree.toList
  rules : ∀ r, w.Live r → (w.rules.cell r).Mirrors g.task w.kernel
  waits : ∀ tca ∈ w.waiting, tca.Aims w
  reported : ∀ note, g.task = some (.report note) → ∃ r, w.Reports note r
  covered : ∀ chainNo prio, w.kernel.filters chainNo prio ≠ none →
    ∃ r, w.Live r ∧ (w.rules.cell r).chainNo = chainNo ∧ (w.rules.cell r).prio = prio

section Preservation

variable {g g' : Ghost} {w w' : World}

namespace ObjRule.Mirrors

variable {task : Option Task} {k : Kernel} {rule : ObjRule}

/-- With no report on its way, anything may be next. -/
theorem of_quiet (mirrors : rule.Mirrors task k) (quiet : ∀ note, task ≠ some (.report note))
    (next : Option Task) : rule.Mirrors next k where
  notLost := mirrors.notLost
  installed := mirrors.installed
  filter := .inl (mirrors.filter.resolve_right (quiet _))

/-- With nothing to go on with, anything may be next. -/
theorem of_free (mirrors : rule.Mirrors none k) (next : Option Task) : rule.Mirrors next k :=
  mirrors.of_quiet (fun _ absent => by cases absent) next

/-- A report about another position does not matter. -/
theorem of_report {note : Note} (mirrors : rule.Mirrors (some (.report note)) k)
    (apart : ¬ (rule.chainNo = note.chainNo ∧ rule.prio = note.prio)) (next : Option Task) :
    rule.Mirrors next k := by
  refine ⟨mirrors.notLost, mirrors.installed, .inl (mirrors.filter.resolve_right fun same => ?_)⟩
  have same := Task.report.inj (Option.some.inj same)
  exact apart (by rw [same]; exact ⟨rfl, rfl⟩)

/-- What another value of the same position keeps. -/
theorem congr {rule' : ObjRule} (mirrors : rule.Mirrors task k)
    (chainNo : rule'.chainNo = rule.chainNo) (prio : rule'.prio = rule.prio)
    (haveLaf : rule'.haveLaf = rule.haveLaf) (have' : rule'.haveTcr = rule.haveTcr)
    (obj : rule'.obj.state = rule.obj.state) : rule'.Mirrors task k := by
  refine ⟨haveLaf.trans mirrors.notLost, ?_, ?_⟩
  · rw [have', obj]
    exact mirrors.installed
  · rw [chainNo, prio, have']
    exact mirrors.filter

end ObjRule.Mirrors

namespace Mirrored

/-- Two rules at one position are one. -/
theorem unique (mirrored : Mirrored g w) {r p : RuleId} (live : w.Live r) (live' : w.Live p)
    (chain : (w.rules.cell p).chainNo = (w.rules.cell r).chainNo)
    (prio : (w.rules.cell p).prio = (w.rules.cell r).prio) : p = r :=
  mirrored.placed.unique (mirrored.inside p live') (mirrored.inside r live) chain prio

/-- What a change of one rule preserves. -/
theorem modify (mirrored : Mirrored g w) {r : RuleId} {f : ObjRule → ObjRule}
    (rules : w'.rules = w.rules.modify r f) (echoes : w'.kernel.echoes = w.kernel.echoes)
    (filters : ∀ chainNo prio, w'.kernel.filters chainNo prio ≠ none →
      w.kernel.filters chainNo prio ≠ none ∨
        chainNo = (w.rules.cell r).chainNo ∧ prio = (w.rules.cell r).prio)
    (mode : w'.mode = w.mode)
    (place : ∀ rule, (f rule).chainNo = rule.chainNo ∧ (f rule).prio = rule.prio ∧
      (f rule).havePos = rule.havePos)
    (kind : (f (w.rules.cell r)).obj.kind = .rule) (live : w.Live r)
    (tree : w'.posTree = w.posTree)
    (own : (f (w.rules.cell r)).Mirrors g'.task w'.kernel)
    (others : ∀ p, p ≠ r → w.Live p → (w.rules.cell p).Mirrors g'.task w'.kernel)
    (waits : ∀ tca ∈ w'.waiting, tca.Aims w')
    (reported : ∀ note, g'.task = some (.report note) → ∃ r, w'.Reports note r) :
    Mirrored g' w' := by
  have cell : ∀ p, p ≠ r → w'.rules.cell p = w.rules.cell p := fun p apart => by
    rw [rules, Heap.cell_modify_ne _ _ apart]
  have here : w'.rules.cell r = f (w.rules.cell r) := by rw [rules, Heap.cell_modify_same]
  have placeOf : ∀ p, (w'.rules.cell p).chainNo = (w.rules.cell p).chainNo ∧
      (w'.rules.cell p).prio = (w.rules.cell p).prio ∧
        (w'.rules.cell p).havePos = (w.rules.cell p).havePos := fun p => by
    by_cases same : p = r
    · rw [same, here]
      exact place _
    · rw [cell p same]
      exact ⟨rfl, rfl, rfl⟩
  have liveOf : ∀ p, w'.Live p ↔ w.Live p := fun p => by
    by_cases same : p = r
    · rw [same, World.Live, here]
      exact ⟨fun _ => live, fun _ => kind⟩
    · rw [World.Live, World.Live, cell p same]
  refine ⟨echoes.trans mirrored.echoes, mode.trans mirrored.normal, ?_, fun p inside => ?_,
    fun p here => ?_, fun p here => ?_, fun p live => ?_, waits, reported,
    fun chainNo prio present => ?_⟩
  · exact mirrored.placed.keep (by rw [tree]) (fun p _ => (liveOf p).mpr)
      fun p _ => ⟨(placeOf p).1, (placeOf p).2.1⟩
  · rw [tree] at inside
    rw [(placeOf p).2.2]
    exact mirrored.flagged p inside
  · rw [(placeOf p).1]
    exact mirrored.small p ((liveOf p).mp here)
  · rw [tree]
    exact mirrored.inside p ((liveOf p).mp here)
  · by_cases same : p = r
    · subst same
      rw [here]
      exact own
    · rw [cell p same]
      exact others p same ((liveOf p).mp live)
  · rcases filters chainNo prio present with before | ⟨rfl, rfl⟩
    · obtain ⟨p, live, chain, position⟩ := mirrored.covered chainNo prio before
      refine ⟨p, (liveOf p).mpr live, ?_, ?_⟩
      · rw [(placeOf p).1, chain]
      · rw [(placeOf p).2.1, position]
    · exact ⟨r, (liveOf r).mpr live, (placeOf r).1, (placeOf r).2.1⟩

/-- Actions that wait for rules which keep their position, and have something as before. -/
theorem waits_modify (mirrored : Mirrored g w) {r : RuleId} {f : ObjRule → ObjRule}
    (rules : w'.rules = w.rules.modify r f)
    (place : ∀ rule, (f rule).chainNo = rule.chainNo ∧ (f rule).prio = rule.prio)
    {tca : TcAction} (member : tca ∈ w.waiting) (content : tca.data = r →
      ((f (w.rules.cell r)).haveTcr = none ↔ (w.rules.cell r).haveTcr = none)) :
    tca.Aims w' := by
  obtain ⟨chainNo, prio, changes⟩ := mirrored.waits tca member
  by_cases same : tca.data = r
  · have here : w'.rules.cell tca.data = f (w.rules.cell r) := by
      rw [rules, same, Heap.cell_modify_same]
    rw [same] at chainNo prio changes
    refine ⟨?_, ?_, ?_⟩
    · rw [here, (place _).1, chainNo]
    · rw [here, (place _).2, prio]
    · rw [here]
      exact (content same).trans changes
  · have other : w'.rules.cell tca.data = w.rules.cell tca.data := by
      rw [rules, Heap.cell_modify_ne _ _ same]
    exact ⟨other ▸ chainNo, other ▸ prio, other ▸ changes⟩

/-- The same after a report was heard. -/
theorem waits_hears (mirrored : Mirrored g w) {note : Note} {r : RuleId}
    {f : ObjRule → ObjRule} (place : ∀ rule, (f rule).chainNo = rule.chainNo ∧
      (f rule).prio = rule.prio) {tca : TcAction} (member : tca ∈ w.waiting)
    (idle : tca.data ≠ r) : tca.Aims ((w.hears note).setRule r f) :=
  mirrored.waits_modify (rules_setRule (w.hears note) r f) place member
    fun same => absurd same idle

/-- A rule is written to, in what does not concern its position and what it has. -/
theorem write (mirrored : Mirrored g w) {r : RuleId} {f : ObjRule → ObjRule}
    (place : ∀ rule, (f rule).chainNo = rule.chainNo ∧ (f rule).prio = rule.prio ∧
      (f rule).havePos = rule.havePos)
    (content : ∀ rule, (f rule).haveTcr = rule.haveTcr)
    (kind : (f (w.rules.cell r)).obj.kind = .rule) (live : w.Live r)
    (own : (f (w.rules.cell r)).Mirrors g'.task w.kernel)
    (others : ∀ p, p ≠ r → w.Live p → (w.rules.cell p).Mirrors g'.task w.kernel)
    (reported : ∀ note, g'.task = some (.report note) →
      g.task = some (.report note) ∧ ∀ rule, (f rule).state = rule.state) :
    Mirrored g' (w.setRule r f) := by
  refine mirrored.modify (rules_setRule ..) rfl (fun _ _ => .inl) rfl place kind live rfl own others
    (fun tca member => ?_) fun note task => ?_
  · exact mirrored.waits_modify (rules_setRule ..) (fun rule => ⟨(place rule).1, (place rule).2.1⟩)
      member fun _ => by rw [content]
  · obtain ⟨before, state⟩ := reported note task
    obtain ⟨p, here⟩ := mirrored.reported note before
    have cell : ∀ (β : Type) (field : ObjRule → β), (∀ rule, field (f rule) = field rule) →
        field ((w.setRule r f).rules.cell p) = field (w.rules.cell p) := fun β field same =>
      Heap.cell_modify_field w.rules r p field same
    refine ⟨p, ?_, ?_, ?_, here.filter, ?_, ?_⟩
    · rw [World.Live, rules_setRule, Heap.cell_modify]
      split
      · next same =>
        subst same
        exact kind
      · exact here.live
    · rw [cell _ ObjRule.chainNo fun rule => (place rule).1, here.chainNo]
    · rw [cell _ ObjRule.prio fun rule => (place rule).2.1, here.prio]
    · rw [cell _ ObjRule.state state, here.pending]
    · rw [cell _ ObjRule.haveTcr content]
      exact here.news

/-- What is preserved where no rule changes. -/
theorem keep (mirrored : Mirrored g w) (rules : w'.rules = w.rules)
    (kernel : w'.kernel = w.kernel) (mode : w'.mode = w.mode)
    (tree : w'.posTree = w.posTree) (waiting : w'.waiting = w.waiting)
    (mirrors : ∀ r, w.Live r → (w.rules.cell r).Mirrors g'.task w.kernel)
    (reported : ∀ note, g'.task = some (.report note) → g.task = some (.report note)) :
    Mirrored g' w' := by
  have liveOf : ∀ p, w'.Live p ↔ w.Live p := fun p => by rw [World.Live, World.Live, rules]
  refine ⟨by rw [kernel]; exact mirrored.echoes, mode.trans mirrored.normal, ?_, ?_, ?_, ?_, ?_, ?_,
    ?_, ?_⟩
  · exact mirrored.placed.keep (by rw [tree]) (fun p _ => (liveOf p).mpr)
      fun p _ => by rw [rules]; exact ⟨rfl, rfl⟩
  · rw [tree, rules]
    exact mirrored.flagged
  · intro r live
    rw [rules]
    exact mirrored.small r ((liveOf r).mp live)
  · intro r live
    rw [tree]
    exact mirrored.inside r ((liveOf r).mp live)
  · intro r live
    rw [rules, kernel]
    exact mirrors r ((liveOf r).mp live)
  · intro tca member
    rw [waiting] at member
    obtain ⟨chainNo, prio, changes⟩ := mirrored.waits tca member
    exact ⟨by rw [rules]; exact chainNo, by rw [rules]; exact prio, by rw [rules]; exact changes⟩
  · intro note task
    obtain ⟨r, here⟩ := mirrored.reported note (reported note task)
    refine ⟨r, (liveOf r).mpr here.live, ?_, ?_, ?_, ?_, ?_⟩
    · rw [rules, here.chainNo]
    · rw [rules, here.prio]
    · rw [kernel, here.filter]
    · rw [rules, here.pending]
    · rw [rules]
      exact here.news
  · intro chainNo prio present
    rw [kernel] at present
    obtain ⟨p, live, chain, position⟩ := mirrored.covered chainNo prio present
    refine ⟨p, (liveOf p).mpr live, ?_, ?_⟩
    · rw [rules, chain]
    · rw [rules, position]

/-- A rule is found at its position. -/
theorem lookup (mirrored : Mirrored g w) {r : RuleId} (live : w.Live r) :
    objRulePosLookup (w.rules.cell r).chainNo (w.rules.cell r).prio w = .ok (some r) :=
  mirrored.placed.find (mirrored.inside r live)

/-- A search at a rule's position finds it. -/
theorem find (mirrored : Mirrored g w) {r : RuleId} (live : w.Live r) (tcr : TcRule) :
    objRuleFind (w.rules.cell r).chainNo (w.rules.cell r).prio tcr w = .ok (some r) := by
  rw [objRuleFind, mirrored.lookup live]
  rfl

/-- At a position without a rule the kernel has no filter. -/
theorem empty (mirrored : Mirrored g w) {chainNo : UInt32} {prio : UInt16}
    (search : objRulePosLookup chainNo prio w = .ok none) :
    w.kernel.filters chainNo prio = none := by
  by_contra present
  obtain ⟨r, live, rfl, rfl⟩ := mirrored.covered chainNo prio present
  rw [mirrored.lookup live] at search
  cases search

/-- What a new rule at a free position preserves. -/
theorem alloc (mirrored : Mirrored g w) (bound : ∀ r, w.Live r → r < w.rules.next)
    {rule rule₁ : ObjRule} {w₁ : World} {linked : SearchTree RuleId}
    (rules : w'.rules = w.rules.alloc rule) (rules₁ : w₁.rules = w.rules.alloc rule₁)
    (kernel : w'.kernel = w.kernel) (mode : w'.mode = w.mode)
    (waiting : w'.waiting = w.waiting) (data : ∀ tca ∈ w.waiting, tca.data < w.rules.next)
    (kind : rule.obj.kind = .rule) (small : Small rule.chainNo)
    (link : w.posTree.link (posCompare rule.chainNo rule.prio w₁) w.rules.next = .ok (some linked))
    (flag : rule.havePos = true) (tree : w'.posTree.toList = linked.toList)
    (own : rule.Mirrors g'.task w.kernel)
    (others : ∀ p, w.Live p → (w.rules.cell p).Mirrors g'.task w.kernel)
    (reported : ∀ note, g'.task ≠ some (.report note)) : Mirrored g' w' := by
  have old : ∀ p, p ≠ w.rules.next → w'.rules.cell p = w.rules.cell p := fun p apart => by
    rw [rules, Heap.cell_alloc_ne _ _ apart]
  have new : w'.rules.cell w.rules.next = rule := by rw [rules, Heap.cell_alloc_same]
  have liveOf : ∀ p, p ≠ w.rules.next → (w'.Live p ↔ w.Live p) := fun p apart => by
    rw [World.Live, World.Live, old p apart]
  have apart : ∀ p, w.Live p → p ≠ w.rules.next := fun p live => Nat.ne_of_lt (bound p live)
  refine ⟨by rw [kernel]; exact mirrored.echoes, mode.trans mirrored.normal, ?_,
    fun p inside => ?_, fun p here => ?_, fun p here => ?_, fun p here => ?_,
    fun tca member => ?_, fun note task => absurd task (reported note),
    fun chainNo prio present => ?_⟩
  · exact mirrored.placed.alloc bound small kind rules rules₁ link tree
  · by_cases same : p = w.rules.next
    · rw [same, new, flag]
    · rw [old p same]
      refine mirrored.flagged p ?_
      rw [tree] at inside
      exact ((SearchTree.mem_link link).mp inside).resolve_left same
  · by_cases same : p = w.rules.next
    · rw [same, new]
      exact small
    · rw [old p same]
      exact mirrored.small p ((liveOf p same).mp here)
  · rw [tree]
    by_cases same : p = w.rules.next
    · exact (SearchTree.mem_link link).mpr (.inl same)
    · exact (SearchTree.mem_link link).mpr (.inr (mirrored.inside p ((liveOf p same).mp here)))
  · rw [kernel]
    by_cases same : p = w.rules.next
    · rw [same, new]
      exact own
    · rw [old p same]
      exact others p ((liveOf p same).mp here)
  · rw [waiting] at member
    obtain ⟨chainNo, prio, changes⟩ := mirrored.waits tca member
    have same := old tca.data (Nat.ne_of_lt (data tca member))
    exact ⟨same ▸ chainNo, same ▸ prio, same ▸ changes⟩
  · rw [kernel] at present
    obtain ⟨p, live, chain, position⟩ := mirrored.covered chainNo prio present
    refine ⟨p, (liveOf p (apart p live)).mpr live, ?_, ?_⟩
    · rw [old p (apart p live), chain]
    · rw [old p (apart p live), position]

/-- A rule without filter is reaped. -/
theorem reap (mirrored : Mirrored g w) {r : RuleId} (free : g.Free) (live : w.Live r)
    (reapable : objIsReapable w.mode (w.rules.cell r).obj = true)
    (idle : ∀ tca ∈ w.waiting, tca.data ≠ r) : Mirrored g (w.reaped r) := by
  rw [Ghost.Free] at free
  have rules : (w.reaped r).rules = w.rules.modify r ObjRule.reaped := by
    simp [World.reaped, World.setRule]
  have kernel : (w.reaped r).kernel = w.kernel := by simp [World.reaped, World.setRule]
  have cell : ∀ p, p ≠ r → (w.reaped r).rules.cell p = w.rules.cell p := fun p apart => by
    rw [rules, Heap.cell_modify_ne _ _ apart]
  have waiting : (w.reaped r).waiting = w.waiting := by
    simp [World.waiting, World.reaped, World.setRule]
  have dead : ¬ (w.reaped r).Live r := fun here => by
    rw [World.Live, rules, Heap.cell_modify_same] at here
    cases here
  have apart : ∀ p, (w.reaped r).Live p → p ≠ r := fun p here same => dead (same ▸ here)
  have liveOf : ∀ p, p ≠ r → ((w.reaped r).Live p ↔ w.Live p) := fun p apart => by
    rw [World.Live, World.Live, cell p apart]
  have tree : (w.reaped r).posTree.toList = w.posTree.toList.erase r := by
    simp [World.reaped, mirrored.flagged r (mirrored.inside r live), w.balancing.erase_toList]
  have distinct := mirrored.placed.nodup
  -- a rule that has something is INSTALLED, and would stay
  have absent : (w.rules.cell r).haveTcr = none := by
    by_contra present
    have installed := (mirrored.rules r live).installed present
    rw [mirrored.normal] at reapable
    simp [objIsReapable, installed] at reapable
  refine ⟨by rw [kernel]; exact mirrored.echoes, ?_, ?_, fun p inside => ?_, fun p here => ?_,
    fun p here => ?_, fun p here => ?_, fun tca member => ?_, fun note task => ?_,
    fun chainNo prio present => ?_⟩
  · rw [World.reaped]
    cases (w.rules.cell r).target <;> exact mirrored.normal
  · have sub : (w.reaped r).posTree.toList.Sublist w.posTree.toList := by
      rw [tree]
      exact List.erase_sublist
    refine mirrored.placed.keep sub (fun p inside before => ?_) fun p inside => ?_
    · rw [tree, distinct.mem_erase_iff] at inside
      exact (liveOf p inside.1).mpr before
    · rw [rules]
      exact ⟨Heap.cell_modify_field _ _ _ ObjRule.chainNo fun _ => rfl,
        Heap.cell_modify_field _ _ _ ObjRule.prio fun _ => rfl⟩
  · rw [tree, distinct.mem_erase_iff] at inside
    rw [cell p inside.1]
    exact mirrored.flagged p inside.2
  · rw [cell p (apart p here)]
    exact mirrored.small p ((liveOf p (apart p here)).mp here)
  · rw [tree, distinct.mem_erase_iff]
    exact ⟨apart p here, mirrored.inside p ((liveOf p (apart p here)).mp here)⟩
  · rw [cell p (apart p here), kernel]
    exact mirrored.rules p ((liveOf p (apart p here)).mp here)
  · rw [waiting] at member
    obtain ⟨chainNo, prio, changes⟩ := mirrored.waits tca member
    have same := cell tca.data (idle tca member)
    exact ⟨same ▸ chainNo, same ▸ prio, same ▸ changes⟩
  · rw [free] at task
    cases task
  · rw [kernel] at present
    obtain ⟨p, before, rfl, rfl⟩ := mirrored.covered chainNo prio present
    by_cases same : p = r
    · subst same
      have mirrors := mirrored.rules p before
      rw [free] at mirrors
      have filter := mirrors.filter.resolve_right fun absent => by cases absent
      exact absurd (filter.trans absent) present
    · exact ⟨p, (liveOf p same).mpr before, by rw [cell p same], by rw [cell p same]⟩

/-- An action is queued. -/
theorem schedule {tca : TcAction} (mirrored : Mirrored (g.ask (.update tca.data)) w)
    (free : g.Free) (live : w.Live tca.data) (chainNo : tca.chainNo = (w.rules.cell tca.data).chainNo)
    (prio : tca.prio = (w.rules.cell tca.data).prio)
    (requests : Requests w.pinChanges (w.rules.cell tca.data) tca.tcr) :
    Mirrored g (w.scheduled tca) := by
  rw [Ghost.Free] at free
  have waiting : (w.scheduled tca).waiting = w.waiting ++ [tca] := waiting_enqueue w.queue tca
  have content : ∀ p, ((w.scheduled tca).rules.cell p).haveTcr = (w.rules.cell p).haveTcr :=
    fun p => by
      rw [w.rules_scheduled]
      exact Heap.cell_modify_field _ _ _ ObjRule.haveTcr fun _ => rfl
  refine mirrored.modify (w.rules_scheduled tca) rfl (fun _ _ => .inl) rfl
    (fun _ => ⟨rfl, rfl, rfl⟩) ?_ live rfl ?_ (fun p apart before => ?_)
    (fun other member => ?_) fun note task => ?_
  · rw [kind_objRef]
    exact live
  · have before := mirrored.rules tca.data live
    rw [free]
    refine ⟨before.notLost, fun present => ?_, .inl ?_⟩
    · rw [state_objRef]
      exact before.installed present
    · exact before.filter.resolve_right fun absent => by cases absent
  · exact (mirrored.rules p before).of_quiet (fun _ absent => by cases absent) _
  · rw [waiting] at member
    rcases List.mem_append.mp member with before | last
    · exact mirrored.waits_modify (w.rules_scheduled tca) (fun _ => ⟨rfl, rfl⟩) before
        fun _ => Iff.rfl
    · rw [List.mem_singleton] at last
      subst last
      refine ⟨?_, ?_, ?_⟩
      · rw [w.rules_scheduled, Heap.cell_modify_same, chainNo]
      · rw [w.rules_scheduled, Heap.cell_modify_same, prio]
      · rw [content]
        generalize other.tcr = tcr at requests
        cases requests with
        | install wanted absent _ => exact ⟨fun _ => wanted, fun _ => absent⟩
        | uninstall present _ _ => exact ⟨fun absent => absurd absent present, fun same => absurd rfl same⟩
  · rw [free] at task
    cases task

/-- The kernel refuses no action. -/
theorem answer (mirrored : Mirrored g w) (free : g.Free) {tca : TcAction} (live : w.Live tca.data)
    (aims : tca.Aims w) : w.answer tca = ({ w.kernel with
      filters := fun chainNo prio =>
        if chainNo = tca.chainNo ∧ prio = tca.prio then tca.tcr
        else w.kernel.filters chainNo prio }, [⟨tca.chainNo, tca.prio, tca.tcr⟩]) := by
  rw [World.answer, Kernel.request, if_neg]
  rintro ⟨-, same⟩
  have mirrors := mirrored.rules tca.data live
  rw [Ghost.Free] at free
  rw [free] at mirrors
  have filter := mirrors.filter.resolve_right fun absent => by cases absent
  rw [aims.chainNo, aims.prio, filter] at same
  have changes := aims.changes
  cases present : (w.rules.cell tca.data).haveTcr with
  | none =>
    rw [present] at same changes
    cases content : tca.tcr with
    | none => exact changes.mp rfl content
    | some tcr =>
      rw [content] at same
      cases same
  | some tcr =>
    rw [present] at same changes
    have absent : tca.tcr = none := by
      by_contra installs
      cases changes.mpr installs
    rw [absent] at same
    cases same

/-- An action is executed, and its report is on its way. -/
theorem execute (mirrored : Mirrored g w) {tca : TcAction} {queue : Queue TcAction}
    (free : g.Free) (started : w.queue.queueProcess = .ok (tca, queue)) (live : w.Live tca.data) :
    Mirrored (((g.run g.routesUnderWay).lend tca.data).next (w.echo tca))
      (w.executed tca queue) := by
  have order := waiting_queueProcess started
  have waiting : (w.executed tca queue).waiting = { w with queue }.waiting := by
    simp only [World.executed, World.waiting]
    split <;> rfl
  have aims := mirrored.waits tca (order ▸ List.mem_cons_self)
  have answer := mirrored.answer free live aims
  obtain ⟨chainNo, prio, changes⟩ := aims
  rw [Ghost.Free] at free
  have kernel : (w.executed tca queue).kernel = { w.kernel with filters := fun chain p =>
      if chain = tca.chainNo ∧ p = tca.prio then tca.tcr else w.kernel.filters chain p } := by
    simp only [World.executed, answer, mirrored.echoes, if_true]
  have task : (((g.run g.routesUnderWay).lend tca.data).next (w.echo tca)).task =
      some (.report ⟨tca.chainNo, tca.prio, tca.tcr⟩) := by
    rw [Ghost.next, World.echo, if_pos mirrored.echoes, answer]
    rfl
  have here : (w.executed tca queue).kernel.filters tca.chainNo tca.prio = tca.tcr := by
    rw [kernel]
    exact if_pos ⟨rfl, rfl⟩
  refine mirrored.modify (w.rules_executed tca queue) (by rw [kernel]) (fun chain p present => ?_)
    rfl (fun _ => ⟨rfl, rfl, rfl⟩) live live rfl ?_ (fun p apart before => ?_)
    (fun other member => ?_) fun note same => ?_
  · rw [kernel] at present
    dsimp only at present
    split at present
    · next same => exact .inr ⟨same.1.trans chainNo, same.2.trans prio⟩
    · exact .inl present
  · have before := mirrored.rules tca.data live
    rw [task]
    refine ⟨before.notLost, before.installed, .inr ?_⟩
    rw [← chainNo, ← prio, here]
  · have mirrors := mirrored.rules p before
    have other : ¬ ((w.rules.cell p).chainNo = tca.chainNo ∧ (w.rules.cell p).prio = tca.prio) :=
      fun both => apart (mirrored.unique live before (both.1.trans chainNo) (both.2.trans prio))
    have same : (w.executed tca queue).kernel.filters (w.rules.cell p).chainNo
        (w.rules.cell p).prio = w.kernel.filters (w.rules.cell p).chainNo (w.rules.cell p).prio := by
      rw [kernel]
      exact if_neg other
    rw [free] at mirrors
    refine ObjRule.Mirrors.of_free ⟨mirrors.notLost, mirrors.installed, ?_⟩ _
    rw [same]
    exact mirrors.filter
  · rw [waiting] at member
    exact mirrored.waits_modify (w.rules_executed tca queue) (fun _ => ⟨rfl, rfl⟩)
      (order ▸ List.mem_cons_of_mem _ member) fun _ => Iff.rfl
  · rw [task] at same
    cases same
    have cell : (w.executed tca queue).rules.cell tca.data =
        { w.rules.cell tca.data with state := .pending } := by
      rw [w.rules_executed, Heap.cell_modify_same]
    refine ⟨tca.data, ?_, ?_, ?_, here, ?_, ?_⟩
    · rw [World.Live, cell]
      exact live
    · rw [cell, chainNo]
    · rw [cell, prio]
    · rw [cell]
    · rw [cell]
      exact changes

/-- Rules at other positions than the one that is reported. -/
theorem others_reported (mirrored : Mirrored g w) {note : Note}
    (task : g.task = some (.report note)) {r : RuleId} (live : w.Live r)
    (chainNo : (w.rules.cell r).chainNo = note.chainNo) (prio : (w.rules.cell r).prio = note.prio)
    {p : RuleId} (apart : p ≠ r) (before : w.Live p) (next : Option Task) :
    (w.rules.cell p).Mirrors next w.kernel := by
  have mirrors := mirrored.rules p before
  rw [task] at mirrors
  refine mirrors.of_report (fun both => apart ?_) next
  exact mirrored.unique live before (both.1.trans chainNo.symm) (both.2.trans prio.symm)

/-- Actions do not wait for the rule that a report is about. -/
theorem idle_reported (mirrored : Mirrored g w) (waits : Waits w) {note : Note}
    (task : g.task = some (.report note)) {r : RuleId} (live : w.Live r)
    (chainNo : (w.rules.cell r).chainNo = note.chainNo) (prio : (w.rules.cell r).prio = note.prio)
    {tca : TcAction} (member : tca ∈ w.waiting) : tca.data ≠ r := by
  intro same
  obtain ⟨p, here⟩ := mirrored.reported note task
  have only : p = r := mirrored.unique live here.live (here.chainNo.trans chainNo.symm)
    (here.prio.trans prio.symm)
  have queued := waits.queued tca member
  rw [same, ← only, here.pending] at queued
  cases queued

/-- No report is ignored. -/
theorem heeded (mirrored : Mirrored g w) {note : Note} (task : g.task = some (.report note))
    (gone : note.filter = none → ∃ tcr, objRuleFind note.chainNo note.prio tcr w = .ok none)
    (found : ∀ tcr, note.filter = some tcr → ∃ r, w.Live r ∧
      objRuleFind note.chainNo note.prio tcr w = .ok (some r) ∧
        (w.rules.cell r).haveTcr = some tcr) : False := by
  obtain ⟨p, here⟩ := mirrored.reported note task
  cases content : note.filter with
  | none =>
    obtain ⟨tcr, search⟩ := gone content
    rw [← here.chainNo, ← here.prio, mirrored.find here.live tcr] at search
    cases search
  | some tcr =>
    obtain ⟨q, -, search, had⟩ := found tcr content
    rw [← here.chainNo, ← here.prio, mirrored.find here.live tcr] at search
    cases search
    rw [here.news.mpr (by simp [content])] at had
    cases had

/-- No report makes a new rule. -/
theorem known (mirrored : Mirrored g w) {note : Note} (task : g.task = some (.report note))
    {tcr : TcRule} (search : objRuleFind note.chainNo note.prio tcr w = .ok none) : False := by
  obtain ⟨p, here⟩ := mirrored.reported note task
  rw [← here.chainNo, ← here.prio, mirrored.find here.live tcr] at search
  cases search

end Mirrored

/-- Every effect keeps it, where new rules come to free positions. -/
theorem Effect.mirrored (sound : Sound g w) (mirrored : Mirrored g w)
    (places : ∀ tcr chainNo prio placed, g.task = some (.request tcr) →
      objRuleLafLookup tcr w = .ok none →
      schedBasicPlace tcr w = .ok (some (chainNo, prio), placed) →
      Small chainNo ∧ objRulePosLookup chainNo prio w = .ok none)
    (effect : Effect g w g' w') : Mirrored g' w' := by
  have bound : ∀ r, w.Live r → r < w.rules.next := fun r live => (sound.counts.alive r live).2
  have data : ∀ tca ∈ w.waiting, tca.data < w.rules.next := fun tca member =>
    bound _ (sound.counts.live_waiting member)
  have quiet : (∀ note, g.task ≠ some (.report note)) → ∀ next, ∀ r, w.Live r →
      (w.rules.cell r).Mirrors next w.kernel :=
    fun quiet next r live => (mirrored.rules r live).of_quiet quiet next
  have free : g.Free → ∀ next, ∀ r, w.Live r → (w.rules.cell r).Mirrors next w.kernel := fun free =>
    quiet fun note task => by rw [free] at task; cases task
  cases effect with
  | @ref _ _ r live =>
    refine mirrored.write (fun _ => ⟨rfl, rfl, rfl⟩) (fun _ => rfl) ?_ live ?_
      (fun p _ live => mirrored.rules p live) fun note task => ⟨task, fun _ => rfl⟩
    · rw [kind_objRef]
      exact live
    · exact (mirrored.rules r live).congr rfl rfl rfl rfl (state_objRef _)
  | @unref _ _ r obj live counted =>
    obtain ⟨rfl, -⟩ := objUnref_ok counted
    refine mirrored.write (fun _ => ⟨rfl, rfl, rfl⟩) (fun _ => rfl) live live ?_
      (fun p _ live => mirrored.rules p live) fun note task => ⟨task, fun _ => rfl⟩
    exact (mirrored.rules r live).congr rfl rfl rfl rfl rfl
  | @unwant _ _ r idle live _ _ _ _ _ =>
    refine mirrored.write (fun _ => ⟨rfl, rfl, rfl⟩) (fun _ => rfl) live live ?_
      (fun p _ => free idle _ p) fun note task => by cases task
    exact (free idle _ r live).congr rfl rfl rfl rfl rfl
  | @reap _ _ _ r idle live reapable reaped =>
    obtain ⟨rfl, -, unused, -⟩ := objRuleReap_ok reaped
    refine mirrored.reap idle live reapable fun tca member same => ?_
    have covered := sound.counts.covered tca.data
    have claimed := claims_waiting (g := g) member
    rw [same, World.refcnt, unused] at covered
    rw [same] at claimed
    omega
  | @skip g' _ r idle skips =>
    have idle : g'.task = none := idle
    refine mirrored.keep rfl rfl rfl rfl rfl (quiet (fun _ task => by cases task) _)
      fun note task => ?_
    rw [idle] at task
    cases task
  | @settle g' _ r state idle live removed unqueued settles =>
    have idle : g'.task = none := idle
    have still := quiet (fun _ task => by cases task) g'.task
    refine mirrored.write (fun _ => ⟨rfl, rfl, rfl⟩) (fun _ => rfl) live live ?_
      (fun p _ => still p) fun note task => ?_
    · exact (still r live).congr rfl rfl rfl rfl rfl
    · rw [idle] at task
      cases task
  | @confirm gg _ r t idle live removed unqueued present same target =>
    have idle : gg.task = none := idle
    have still := quiet (fun _ task => by cases task) gg.task
    refine mirrored.write (fun _ => ⟨rfl, rfl, rfl⟩) (fun _ => rfl) live live ?_
      (fun p _ => still p) fun note task => ?_
    · exact (still r live).congr rfl rfl rfl rfl rfl
    · rw [Ghost.opens_task, idle] at task
      cases task
  | schedule idle live removed unqueued chainNo prio requests =>
    exact mirrored.schedule idle live chainNo prio requests
  | execute idle started live => exact mirrored.execute idle started live
  | complete idle completed =>
    exact mirrored.keep rfl rfl rfl rfl (waiting_handleQueueCompleted completed)
      (free idle _) fun _ task => task
  | leave idle _ => exact mirrored.keep rfl rfl rfl rfl rfl (free idle _) fun _ task => task
  | ignore idle gone found => exact (mirrored.heeded rfl gone found).elim
  | @found gg _ r chainNo prio tcr idle search live chain position differs =>
    subst chain position
    have task : (gg.ask (.report ⟨(w.rules.cell r).chainNo, (w.rules.cell r).prio,
      some tcr⟩)).task = _ := rfl
    obtain ⟨p, here⟩ := mirrored.reported _ task
    refine mirrored.modify (rules_setRule ..) rfl (fun _ _ => .inl) rfl
      (fun _ => ⟨rfl, rfl, rfl⟩) ?_ live rfl ?_ (fun p apart before => ?_)
      (fun tca member => ?_) fun note task => by cases task
    · dsimp only [World.hears]
      split <;> exact live
    · have before := mirrored.rules r live
      refine ⟨before.notLost, fun _ => ?_, .inl here.filter⟩
      dsimp only [World.hears]
      split
      · rfl
      · next present => exact before.installed present
    · exact mirrored.others_reported task live rfl rfl apart before _
    · refine mirrored.waits_hears ?_ member
        (mirrored.idle_reported sound.waits task live rfl rfl member)
      exact fun _ => ⟨rfl, rfl⟩
  | @vanish gg _ r chainNo prio tcr idle search live =>
    obtain ⟨chain, position⟩ := objRuleFind_some search
    subst chain position
    have task : (gg.ask (.report ⟨(w.rules.cell r).chainNo, (w.rules.cell r).prio,
      none⟩)).task = _ := rfl
    obtain ⟨p, here⟩ := mirrored.reported _ task
    refine mirrored.modify (rules_setRule ..) rfl (fun _ _ => .inl) rfl
      (fun _ => ⟨rfl, rfl, rfl⟩) ?_ live rfl ?_ (fun p apart before => ?_)
      (fun tca member => ?_) fun note next => ?_
    · dsimp only [World.hears]
      rw [kind_objRef]
      exact live
    · have before := mirrored.rules r live
      exact ⟨before.notLost, fun present => absurd rfl present, .inl here.filter⟩
    · exact mirrored.others_reported task live rfl rfl apart before _
    · refine mirrored.waits_hears ?_ member
        (mirrored.idle_reported sound.waits task live rfl rfl member)
      exact fun _ => ⟨rfl, rfl⟩
    · rw [Ghost.next_task] at next
      split at next <;> cases next
  | discover idle search inPos inLaf => exact (mirrored.known rfl search).elim
  | @adopt gg _ r tcr idle search live present unwanted lost =>
    have kept := (mirrored.rules r live).notLost
    rw [lost] at kept
    cases kept
  | @place gg _ placed _ chainNo prio tcr idle search place inserted =>
    obtain ⟨small, freePosition⟩ := places tcr chainNo prio placed rfl search place
    obtain ⟨⟨chainTree, rfl⟩, -⟩ := returns_iff.mp (schedBasicPlace_returns tcr w) _ place
    obtain ⟨-, linked, link, rfl⟩ := objRulePosInsert_alloc (w := { w with chainTree }) inserted
    obtain ⟨new, success⟩ := mirrored.placed.link bound freePosition
      (show (objRuleAlloc { chainNo, prio, wantTcr := some tcr, obj := { refcnt := 1 } }
        { w with chainTree }).2.rules = _ from rfl) w.rules.next
    have same : linked = some new := Except.ok.inj (link.symm.trans success)
    subst same
    refine mirrored.alloc bound rfl rfl rfl rfl rfl data rfl small link rfl ?_ ?_
      (quiet (fun _ task => by cases task) _) fun note task => by cases task
    · exact w.balancing.insertColor_toList ..
    · exact ⟨rfl, fun present => absurd rfl present, .inl (mirrored.empty freePosition)⟩
  | @decline gg _ tcr idle _ _ _ =>
    have idle : g'.task = none := idle
    refine mirrored.keep rfl rfl rfl rfl rfl (quiet (fun _ task => by cases task) _)
      fun note task => ?_
    rw [idle] at task
    cases task
  | begin idle _ => exact mirrored.keep rfl rfl rfl rfl rfl (free idle _) fun _ task => task
  | aim idle _ _ => exact mirrored.keep rfl rfl rfl rfl rfl (free idle _) fun _ task => task
  | reaim idle _ _ => exact mirrored.keep rfl rfl rfl rfl rfl (free idle _) fun _ task => task
  | demand idle _ _ =>
    exact mirrored.keep rfl rfl rfl rfl rfl (free idle _) fun _ task => by cases task
  | plant idle _ =>
    refine mirrored.keep rfl rfl rfl rfl rfl (free idle _) fun _ task => ?_
    rwa [Ghost.task_lendSome] at task
  | finish idle _ => exact mirrored.keep rfl rfl rfl rfl rfl (free idle _) fun _ task => task
  | shut idle _ => exact mirrored.keep rfl rfl rfl rfl rfl (free idle _) fun _ task => task

end Preservation

end FlowerRoute
