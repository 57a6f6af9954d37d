import FlowerRoute.Verif.Allocators
import FlowerRoute.Verif.StateMachine

/-!
# Positions of rules in runs

Where the rules of a run are: which of them the positional tree holds, and what a request for a
rule needs so that the position chosen for it is free. Runs go on with the chains that the kernel
reports.
-/

namespace FlowerRoute

open Outcome

/-- A rule that has not been reaped is at a position. -/
def World.Occupied (w : World) (chainNo : UInt32) (prio : UInt16) : Prop :=
  ∃ r, w.Live r ∧ (w.rules.cell r).chainNo = chainNo ∧ (w.rules.cell r).prio = prio

/-- What the placement of a rule needs, unless a rule with its content is found: its chain's
number does not overflow, and, where positions are to be `strict`ly free, its position is. -/
structure World.Fits (strict : Prop) (w : World) (tcr : TcRule) : Prop where
  forward : tcr.type = .forward → ∀ chainNo, w.NextChain 5 chainNo →
    chainNo.toNat < 2 ^ 31 - 1 ∧ (strict → ¬ w.Occupied chainNo 1)
  routeGoto : strict → tcr.type = .routeGoto → ∀ chainNo, getAfChain tcr.afAddr.af = .ok chainNo →
    ∃ prio : UInt16, 100 ≤ prio ∧ ¬ w.Occupied chainNo prio

/-- The positions of the rules, with what is on its way to one. -/
structure Positioned (strict : Prop) (g : Ghost) (w : World) : Prop where
  placed : Placed w
  chained : Chained w
  flagged : ∀ r ∈ w.posTree.toList, (w.rules.cell r).havePos = true
  small : ∀ r, w.Live r → Small (w.rules.cell r).chainNo
  inside : ∀ r, w.Live r → strict ∨ (w.rules.cell r).type = .static → r ∈ w.posTree.toList
  notes : ∀ note ∈ w.kernel.notes, Small note.chainNo
  waits : ∀ tca ∈ w.waiting, Small tca.chainNo
  reported : ∀ note, g.task = some (.report note) → Small note.chainNo
  requested : ∀ tcr, g.task = some (.request tcr) → objRuleLafLookup tcr w = .ok none →
    w.Fits strict tcr

section Preservation

variable {strict : Prop} {g g' : Ghost} {w w' : World}

/-- What is done next is not about a position. -/
structure Ghost.Quiet (g : Ghost) : Prop where
  report : ∀ note, g.task ≠ some (.report note)
  request : ∀ tcr, g.task ≠ some (.request tcr)

/-- Nothing is done next. -/
theorem Ghost.Free.quiet (free : g.Free) : g.Quiet := by
  rw [Free] at free
  constructor
  · rw [free]
    exact fun _ task => by cases task
  · rw [free]
    exact fun _ task => by cases task

/-- `obj_rule_update_state` is called next. -/
theorem Ghost.quiet_update (g : Ghost) (r : RuleId) : (g.ask (.update r)).Quiet where
  report _ task := by cases task
  request _ task := by cases task

/-- The rules that have not been reaped are where they were. -/
structure SamePositions (w w' : World) : Prop where
  live : ∀ r, w'.Live r ↔ w.Live r
  place : ∀ r, (w'.rules.cell r).chainNo = (w.rules.cell r).chainNo ∧
    (w'.rules.cell r).prio = (w.rules.cell r).prio ∧
    (w'.rules.cell r).havePos = (w.rules.cell r).havePos ∧
    (w'.rules.cell r).type = (w.rules.cell r).type
  posTree : w'.posTree = w.posTree
  chainTree : w'.chainTree = w.chainTree

/-- What a change of one rule keeps that leaves it where it is. -/
theorem SamePositions.modify {r : RuleId} {f : ObjRule → ObjRule}
    (rules : w'.rules = w.rules.modify r f)
    (place : ∀ rule, (f rule).chainNo = rule.chainNo ∧ (f rule).prio = rule.prio ∧
      (f rule).havePos = rule.havePos ∧ (f rule).type = rule.type)
    (live : w.Live r) (kind : (f (w.rules.cell r)).obj.kind = .rule)
    (posTree : w'.posTree = w.posTree) (chainTree : w'.chainTree = w.chainTree) :
    SamePositions w w' where
  live p := by
    rw [World.Live, World.Live, rules, Heap.cell_modify]
    split
    · next here =>
      subst here
      exact ⟨fun _ => live, fun _ => kind⟩
    · rfl
  place p := by
    rw [rules, Heap.cell_modify]
    split
    · exact place _
    · exact ⟨rfl, rfl, rfl, rfl⟩
  posTree := posTree
  chainTree := chainTree

/-- A position is occupied by the same rules. -/
theorem SamePositions.occupied (same : SamePositions w w') (chainNo : UInt32) (prio : UInt16) :
    w'.Occupied chainNo prio ↔ w.Occupied chainNo prio := by
  simp only [World.Occupied, same.live, fun r => (same.place r).1, fun r => (same.place r).2.1]

/-- What a placement needs stays. -/
theorem World.Fits.same {tcr : TcRule} (fits : w.Fits strict tcr) (same : SamePositions w w') :
    w'.Fits strict tcr where
  forward type chainNo next := by
    rw [NextChain, same.chainTree] at next
    rw [same.occupied]
    exact fits.forward type chainNo next
  routeGoto isStrict type chainNo chain := by
    simp only [same.occupied]
    exact fits.routeGoto isStrict type chainNo chain

/-- A search by content depends on what the rules of the tree have. -/
theorem objRuleLafLookup_congr {tcr : TcRule} (tree : w'.lafTree = w.lafTree)
    (live : ∀ r, w'.Live r ↔ w.Live r)
    (content : ∀ r, (w'.rules.cell r).haveTcr = (w.rules.cell r).haveTcr) :
    objRuleLafLookup tcr w' = objRuleLafLookup tcr w := by
  rw [objRuleLafLookup, objRuleLafLookup, tree]
  refine SearchTree.find_congr fun r _ => ?_
  by_cases alive : w.Live r
  · rw [lafCompare, lafCompare, rule_live alive, rule_live ((live r).mpr alive), ok_bind, ok_bind,
      content]
  · rw [lafCompare, lafCompare, rule_dead alive, rule_dead fun here => alive ((live r).mp here)]

/-- A position without a rule is not found. -/
theorem Placed.absent (placed : Placed w) {chainNo : UInt32} {prio : UInt16}
    (free : ¬ w.Occupied chainNo prio) : objRulePosLookup chainNo prio w = .ok none := by
  have signs : objRulePosLookup chainNo prio w = w.posTree.find fun r =>
      .ok (posSign chainNo prio (w.rules.cell r).chainNo (w.rules.cell r).prio) :=
    SearchTree.find_congr fun r inside => posCompare_live (placed.member r inside).1
  have ends := @SearchTree.find_faults _ _ (fun _ : Fault => False) (fun r =>
    .ok (posSign chainNo prio (w.rules.cell r).chainNo (w.rules.cell r).prio))
    (fun _ => trivial) w.posTree
  obtain ⟨found, search, -⟩ := Ends.returns ends
  rw [← signs] at search
  cases found with
  | none => exact search
  | some r =>
    obtain ⟨-, live, chain, position⟩ := objRulePosLookup_some search
    exact absurd ⟨r, live, chain, position⟩ free

namespace Positioned

/-- Another task. -/
theorem next (positioned : Positioned strict g w)
    (reported : ∀ note, g'.task = some (.report note) → Small note.chainNo)
    (requested : ∀ tcr, g'.task = some (.request tcr) → objRuleLafLookup tcr w = .ok none →
      w.Fits strict tcr) : Positioned strict g' w :=
  { positioned with reported, requested }

/-- A task that is not about a position. -/
theorem quiet (positioned : Positioned strict g w) (quiet : g'.Quiet) : Positioned strict g' w :=
  positioned.next (fun note task => absurd task (quiet.report note))
    fun tcr task => absurd task (quiet.request tcr)

/-- The same task, with other things held. -/
theorem task (positioned : Positioned strict g w) (task : g'.task = g.task) :
    Positioned strict g' w :=
  positioned.next (fun note here => positioned.reported note (task ▸ here))
    fun tcr here => positioned.requested tcr (task ▸ here)

/-- What is preserved where the rules stay where they are. -/
theorem same (positioned : Positioned strict g w) (same : SamePositions w w')
    (notes : ∀ note ∈ w'.kernel.notes, Small note.chainNo)
    (waits : ∀ tca ∈ w'.waiting, Small tca.chainNo)
    (requested : ∀ tcr, g.task = some (.request tcr) → objRuleLafLookup tcr w' = .ok none →
      objRuleLafLookup tcr w = .ok none) : Positioned strict g w' where
  placed := positioned.placed.keep (by rw [same.posTree]) (fun r _ => (same.live r).mpr)
    fun r _ => ⟨(same.place r).1, (same.place r).2.1⟩
  chained := by
    obtain ⟨ordered, small⟩ := positioned.chained
    exact ⟨by rw [same.chainTree]; exact ordered, by rw [same.chainTree]; exact small⟩
  flagged r inside := by
    rw [same.posTree] at inside
    rw [(same.place r).2.2.1]
    exact positioned.flagged r inside
  small r live := by
    rw [(same.place r).1]
    exact positioned.small r ((same.live r).mp live)
  inside r live kept := by
    rw [(same.place r).2.2.2] at kept
    rw [same.posTree]
    exact positioned.inside r ((same.live r).mp live) kept
  notes := notes
  waits := waits
  reported := positioned.reported
  requested tcr task search :=
    (positioned.requested tcr task (requested tcr task search)).same same

/-- A rule is written to, in what concerns neither its position nor what it has. -/
theorem write (positioned : Positioned strict g w) {r : RuleId} {f : ObjRule → ObjRule}
    (place : ∀ rule, (f rule).chainNo = rule.chainNo ∧ (f rule).prio = rule.prio ∧
      (f rule).havePos = rule.havePos ∧ (f rule).type = rule.type)
    (content : ∀ rule, (f rule).haveTcr = rule.haveTcr) (live : w.Live r)
    (kind : (f (w.rules.cell r)).obj.kind = .rule) : Positioned strict g (w.setRule r f) := by
  have same := SamePositions.modify (rules_setRule w r f) place live kind rfl rfl
  refine positioned.same same positioned.notes positioned.waits fun tcr _ search => ?_
  rw [← search]
  exact (@objRuleLafLookup_congr w (w.setRule r f) tcr rfl same.live fun p =>
    Heap.cell_modify_field _ _ _ ObjRule.haveTcr content).symm

/-- Where no rule changes. -/
theorem keep (positioned : Positioned strict g w) (quiet : g.Quiet) (rules : w'.rules = w.rules)
    (posTree : w'.posTree = w.posTree) (chainTree : w'.chainTree = w.chainTree)
    (notes : ∀ note ∈ w'.kernel.notes, Small note.chainNo)
    (waits : w'.waiting = w.waiting) : Positioned strict g w' := by
  refine positioned.same ⟨fun r => ?_, fun r => ?_, posTree, chainTree⟩ notes ?_
    fun tcr task => absurd task (quiet.request tcr)
  · rw [World.Live, World.Live, rules]
  · rw [rules]
    exact ⟨rfl, rfl, rfl, rfl⟩
  · rw [waits]
    exact positioned.waits

/-- A rule is reaped. -/
theorem reap (positioned : Positioned strict g w) {r : RuleId} (free : g.Free) :
    Positioned strict g (w.reaped r) := by
  rw [Ghost.Free] at free
  have rules : (w.reaped r).rules = w.rules.modify r ObjRule.reaped := by
    simp [World.reaped, World.setRule]
  have cell : ∀ p, p ≠ r → (w.reaped r).rules.cell p = w.rules.cell p := fun p apart => by
    rw [rules, Heap.cell_modify_ne _ _ apart]
  have apart : ∀ p, (w.reaped r).Live p → p ≠ r := fun p here same => by
    subst same
    rw [World.Live, rules, Heap.cell_modify_same] at here
    cases here
  have liveOf : ∀ p, p ≠ r → ((w.reaped r).Live p ↔ w.Live p) := fun p apart => by
    rw [World.Live, World.Live, cell p apart]
  have tree : (w.reaped r).posTree.toList = w.posTree.toList.erase r := by
    by_cases flag : (w.rules.cell r).havePos = true
    · simp [World.reaped, flag, w.balancing.erase_toList]
    · have outside : r ∉ w.posTree.toList := fun inside => flag (positioned.flagged r inside)
      simp [World.reaped, flag, List.erase_of_not_mem outside]
  have chains : (w.reaped r).chainTree = w.chainTree := by simp [World.reaped, World.setRule]
  have kernel : (w.reaped r).kernel = w.kernel := by simp [World.reaped, World.setRule]
  have waiting : (w.reaped r).waiting = w.waiting := by
    simp [World.waiting, World.reaped, World.setRule]
  have distinct := positioned.placed.nodup
  refine ⟨?_, ?_, fun p inside => ?_, fun p here => ?_, fun p here kept => ?_, ?_, ?_, ?_, ?_⟩
  · have sub : (w.reaped r).posTree.toList.Sublist w.posTree.toList := by
      rw [tree]
      exact List.erase_sublist
    refine positioned.placed.keep sub (fun p inside before => ?_) fun p _ => ?_
    · rw [tree, distinct.mem_erase_iff] at inside
      exact (liveOf p inside.1).mpr before
    · rw [rules]
      exact ⟨Heap.cell_modify_field _ _ _ ObjRule.chainNo fun _ => rfl,
        Heap.cell_modify_field _ _ _ ObjRule.prio fun _ => rfl⟩
  · obtain ⟨ordered, small⟩ := positioned.chained
    exact ⟨by rw [chains]; exact ordered, by rw [chains]; exact small⟩
  · rw [tree, distinct.mem_erase_iff] at inside
    rw [cell p inside.1]
    exact positioned.flagged p inside.2
  · rw [cell p (apart p here)]
    exact positioned.small p ((liveOf p (apart p here)).mp here)
  · rw [cell p (apart p here)] at kept
    rw [tree, distinct.mem_erase_iff]
    exact ⟨apart p here, positioned.inside p ((liveOf p (apart p here)).mp here) kept⟩
  · rw [kernel]
    exact positioned.notes
  · rw [waiting]
    exact positioned.waits
  · intro note task
    rw [free] at task
    cases task
  · intro tcr task
    rw [free] at task
    cases task

/-- A new rule comes to a position. -/
theorem alloc (positioned : Positioned strict g w) (bound : ∀ r, w.Live r → r < w.rules.next)
    {rule rule₁ : ObjRule} {w₁ : World} {linked : Option (SearchTree RuleId)}
    (rules : w'.rules = w.rules.alloc rule) (rules₁ : w₁.rules = w.rules.alloc rule₁)
    (kernel : w'.kernel = w.kernel) (waiting : w'.waiting = w.waiting) (chained : Chained w')
    (kind : rule.obj.kind = .rule) (small : Small rule.chainNo)
    (link : w.posTree.link (posCompare rule.chainNo rule.prio w₁) w.rules.next = .ok linked)
    (flag : rule.havePos = linked.isSome)
    (tree : w'.posTree.toList = (linked.map SearchTree.toList).getD w.posTree.toList)
    (new : strict ∨ rule.type = .static → linked.isSome)
    (reported : ∀ note, g'.task ≠ some (.report note))
    (requested : ∀ tcr, g'.task ≠ some (.request tcr)) : Positioned strict g' w' := by
  have old : ∀ p, p ≠ w.rules.next → w'.rules.cell p = w.rules.cell p := fun p apart => by
    rw [rules, Heap.cell_alloc_ne _ _ apart]
  have own : w'.rules.cell w.rules.next = rule := by rw [rules, Heap.cell_alloc_same]
  have liveOf : ∀ p, p ≠ w.rules.next → (w'.Live p ↔ w.Live p) := fun p apart => by
    rw [World.Live, World.Live, old p apart]
  have apart : ∀ p ∈ w.posTree.toList, p ≠ w.rules.next := fun p inside =>
    Nat.ne_of_lt (bound p (positioned.placed.member p inside).1)
  have grown : ∀ p ∈ w.posTree.toList, p ∈ w'.posTree.toList := fun p inside => by
    rw [tree]
    cases linked with
    | none => exact inside
    | some linked => exact (SearchTree.mem_link link).mpr (.inr inside)
  refine ⟨?_, chained, fun p inside => ?_, fun p here => ?_, fun p here kept => ?_, ?_, ?_,
    fun note task => absurd task (reported note), fun tcr task => absurd task (requested tcr)⟩
  · cases linked with
    | none =>
      refine positioned.placed.keep (by rw [tree]; exact List.Sublist.refl _) (fun p inside live => ?_)
        fun p inside => ?_
      · rw [tree] at inside
        exact (liveOf p (apart p inside)).mpr live
      · rw [old p (apart p inside)]
        exact ⟨rfl, rfl⟩
    | some linked => exact positioned.placed.alloc bound small kind rules rules₁ link tree
  · rw [tree] at inside
    by_cases same : p = w.rules.next
    · subst same
      rw [own, flag]
      cases linked with
      | none => exact absurd rfl (apart _ inside)
      | some linked => rfl
    · rw [old p same]
      refine positioned.flagged p ?_
      cases linked with
      | none => exact inside
      | some linked => exact ((SearchTree.mem_link link).mp inside).resolve_left same
  · by_cases same : p = w.rules.next
    · rw [same, own]
      exact small
    · rw [old p same]
      exact positioned.small p ((liveOf p same).mp here)
  · by_cases same : p = w.rules.next
    · rw [same, own] at kept
      rw [tree, same]
      cases linked with
      | none => exact absurd (new kept) Bool.false_ne_true
      | some linked => exact (SearchTree.mem_link link).mpr (.inl rfl)
    · rw [old p same] at kept
      exact grown p (positioned.inside p ((liveOf p same).mp here) kept)
  · rw [kernel]
    exact positioned.notes
  · rw [waiting]
    exact positioned.waits

end Positioned

/-- A priority that is taken is occupied. -/
theorem Placed.occupied (placed : Placed w) {chainNo : UInt32} {prio : UInt16}
    (taken : w.Taken chainNo prio) : w.Occupied chainNo prio := by
  obtain ⟨r, inside, chain, position⟩ := taken
  exact ⟨r, (placed.member r inside).1, chain, position⟩

/-- Where a rule that fits is placed. -/
theorem World.Fits.place {tcr : TcRule} (fits : w.Fits strict tcr)
    (positioned : Positioned strict g w) {chainNo : UInt32} {prio : UInt16}
    (place : schedBasicPlace tcr w = .ok (some (chainNo, prio), w')) :
    (∃ chainTree, w' = { w with chainTree } ∧ Chained w') ∧ Small chainNo ∧
      (strict → ¬ w.Occupied chainNo prio) := by
  obtain ⟨forward, routeGoto⟩ := fits
  rw [schedBasicPlace] at place
  split at place
  · next type =>
    obtain ⟨ret, chainTree, found, next, members, ordered⟩ :=
      positioned.chained.findAvailable (show Small 5 by decide)
    rw [found, ok_bind] at place
    cases place
    obtain ⟨bound, free⟩ := forward type _ next
    refine ⟨⟨chainTree, rfl, ordered, fun ch inside => ?_⟩, ?_, free⟩
    · rcases (members ch).mp inside with rfl | old
      · exact bound
      · exact positioned.chained.small ch old
    · unfold Small
      omega
  · next type =>
    obtain ⟨afChain, chain, place⟩ := bind_returned place
    obtain ⟨found, search, place⟩ := bind_returned place
    obtain ⟨_, -, place⟩ := bind_returned place
    cases place
    refine ⟨⟨w.chainTree, rfl, positioned.chained⟩, ?_, fun isStrict occupied => ?_⟩
    · rw [getAfChain] at chain
      split at chain
      · cases chain
        decide
      · split at chain
        · cases chain
          decide
        · cases chain
    · obtain ⟨prio', least, room⟩ := routeGoto isStrict type _ chain
      obtain ⟨prio'', search', -, free, -⟩ := objRuleFindAvailablePrio_free positioned.placed
        ⟨prio', least, fun taken => room (positioned.placed.occupied taken)⟩
      rw [search] at search'
      cases search'
      obtain ⟨r, live, here, position⟩ := occupied
      exact free ⟨r, positioned.inside r live (.inl isStrict), here, position⟩
  · cases place

/-- The kernel's answer is about the position of the action. -/
theorem World.answer_chainNo (w : World) (tca : TcAction) :
    (w.answer tca).1.notes = w.kernel.notes ∧
      ∀ note ∈ (w.answer tca).2, note.chainNo = tca.chainNo := by
  simp only [answer, Kernel.request]
  split
  · exact ⟨rfl, fun _ member => absurd member List.not_mem_nil⟩
  · refine ⟨rfl, fun note member => ?_⟩
    rw [List.mem_singleton.mp member]

/-- An action is executed. -/
theorem Positioned.execute (positioned : Positioned strict g w) {tca : TcAction}
    {queue : Queue TcAction} (free : g.Free) (started : w.queue.queueProcess = .ok (tca, queue))
    (live : w.Live tca.data) :
    Positioned strict (((g.run g.routesUnderWay).lend tca.data).next (w.echo tca))
      (w.executed tca queue) := by
  have order := waiting_queueProcess started
  have waiting : (w.executed tca queue).waiting = { w with queue }.waiting := by
    simp only [World.executed, World.waiting]
    split <;> rfl
  have small : Small tca.chainNo := positioned.waits tca (order ▸ List.mem_cons_self)
  obtain ⟨kept, place⟩ := w.answer_chainNo tca
  have answered : ∀ note ∈ (w.answer tca).2, Small note.chainNo := fun note member => by
    rw [place note member]
    exact small
  have moved := SamePositions.modify (w.rules_executed tca queue) (fun _ => ⟨rfl, rfl, rfl, rfl⟩)
    live live rfl rfl
  have executed : Positioned strict g (w.executed tca queue) := by
    refine positioned.same moved (fun note member => ?_) (fun other member => ?_)
      fun tcr task => absurd task (free.quiet.request tcr)
    · simp only [World.executed] at member
      split at member
      · rw [kept] at member
        exact positioned.notes note member
      · rcases List.mem_append.mp member with before | new
        · rw [kept] at before
          exact positioned.notes note before
        · exact answered note new
    · rw [waiting] at member
      exact positioned.waits other (order ▸ List.mem_cons_of_mem _ member)
  refine executed.next (fun note task => ?_) fun tcr task => ?_
  · rw [Ghost.next_task, World.echo] at task
    split at task
    · obtain ⟨other, first, same⟩ := Option.map_eq_some_iff.mp task
      cases same
      exact answered note (List.mem_of_mem_head? first)
    · cases task
  · rw [Ghost.next_task, World.echo] at task
    split at task
    · obtain ⟨other, -, same⟩ := Option.map_eq_some_iff.mp task
      cases same
    · cases task

/-- Every effect keeps the positions, while no route is being installed. -/
theorem Effect.positioned (sound : Sound g w) (alone : g.installing = 0)
    (positioned : Positioned strict g w) (effect : Effect g w g' w') :
    Positioned strict g' w' := by
  have bound : ∀ r, w.Live r → r < w.rules.next := fun r live => (sound.counts.alive r live).2
  have notes := positioned.notes
  cases effect with
  | ref live =>
    refine Positioned.task (g := g) (positioned.write ?_ (fun _ => rfl) live ?_) rfl
    · exact fun _ => ⟨rfl, rfl, rfl, rfl⟩
    · rw [kind_objRef]
      exact live
  | unref live counted =>
    obtain ⟨rfl, -⟩ := objUnref_ok counted
    have lent : Positioned strict g' w := positioned.task rfl
    refine lent.write ?_ (fun _ => rfl) live live
    exact fun _ => ⟨rfl, rfl, rfl, rfl⟩
  | unwant _ live _ _ _ _ _ =>
    refine (positioned.quiet (Ghost.quiet_update _ _)).write ?_ (fun _ => rfl) live live
    exact fun _ => ⟨rfl, rfl, rfl, rfl⟩
  | reap idle live reapable reaped =>
    obtain ⟨rfl, -⟩ := objRuleReap_ok reaped
    exact positioned.reap idle
  | skip idle _ => exact positioned.quiet idle.quiet
  | settle idle live _ _ _ =>
    refine (positioned.quiet idle.quiet).write ?_ (fun _ => rfl) live live
    exact fun _ => ⟨rfl, rfl, rfl, rfl⟩
  | @confirm gg _ _ _ idle live _ _ _ _ _ =>
    refine Positioned.write (positioned.quiet ?_) ?_ (fun _ => rfl) live live
    · exact ⟨idle.quiet.report, idle.quiet.request⟩
    · exact fun _ => ⟨rfl, rfl, rfl, rfl⟩
  | @schedule _ _ tca idle live _ _ chainNo _ _ =>
    have waiting : (w.scheduled tca).waiting = w.waiting ++ [tca] := waiting_enqueue w.queue tca
    have moved := SamePositions.modify (w.rules_scheduled tca) (fun _ => ⟨rfl, rfl, rfl, rfl⟩) live
      (by rw [kind_objRef]; exact live) rfl rfl
    refine (positioned.quiet idle.quiet).same moved notes (fun other member => ?_)
      fun tcr task => absurd task (idle.quiet.request tcr)
    rw [waiting] at member
    rcases List.mem_append.mp member with before | last
    · exact positioned.waits other before
    · rw [List.mem_singleton.mp last, chainNo]
      exact positioned.small _ live
  | execute idle started live => exact positioned.execute idle started live
  | complete idle completed =>
    refine (positioned.quiet idle.quiet).keep idle.quiet rfl rfl rfl notes ?_
    exact waiting_handleQueueCompleted completed
  | leave idle _ => exact positioned.quiet idle.quiet
  | ignore idle _ _ =>
    exact (positioned.quiet idle.quiet).keep idle.quiet rfl rfl rfl notes rfl
  | @found gg _ r chainNo prio tcr idle search live chain position differs =>
    have quiet := Ghost.quiet_update gg r
    have moved := @SamePositions.modify w ((w.hears ⟨chainNo, prio, some tcr⟩).setRule r fun rule =>
        { rule with
          haveTcr := some tcr
          obj := if rule.haveTcr = none then { rule.obj with state := .installed }
            else rule.obj }) r _ (rules_setRule ..) (fun _ => ⟨rfl, rfl, rfl, rfl⟩) live
        (by dsimp only; split <;> exact live) rfl rfl
    exact (positioned.quiet quiet).same moved notes positioned.waits
      fun tcr task => absurd task (quiet.request tcr)
  | @vanish gg _ r chainNo prio tcr idle search live =>
    have quiet : ((gg.lend r).next
        (if (w.rules.cell r).wantTcr = none then none else some (.update r))).Quiet := by
      constructor
      · intro note
        rw [Ghost.next_task]
        split <;> exact nofun
      · intro tcr
        rw [Ghost.next_task]
        split <;> exact nofun
    have moved := @SamePositions.modify w ((w.hears ⟨chainNo, prio, none⟩).setRule r fun rule =>
        { rule with obj := { objRef rule.obj with state := .present }, haveTcr := none }) r _
        (rules_setRule ..) (fun _ => ⟨rfl, rfl, rfl, rfl⟩) live
        (by dsimp only; rw [kind_objRef]; exact live) rfl rfl
    exact (positioned.quiet quiet).same moved notes positioned.waits
      fun tcr task => absurd task (quiet.request tcr)
  | @discover gg _ _ _ chainNo prio tcr idle search inPos inLaf =>
    obtain ⟨found, byPosition, search⟩ := bind_returned search
    obtain ⟨_, pos, laf, -, -, -, link, -, rfl⟩ := objRuleNew_alloc inPos inLaf
    cases found with
    | some p => cases search
    | none =>
      obtain ⟨linked, success⟩ := positioned.placed.link bound byPosition
        (show (objRuleAlloc { chainNo, prio, haveTcr := some tcr, obj := { state := .installed } }
          (w.hears ⟨chainNo, prio, some tcr⟩)).2.rules = _ from rfl) w.rules.next
      have same : pos = some linked := Except.ok.inj (link.symm.trans success)
      subst same
      refine positioned.alloc bound rfl rfl rfl rfl ⟨positioned.chained.ordered,
        positioned.chained.small⟩ rfl (positioned.reported _ rfl) link rfl ?_ (fun _ => rfl)
        (fun _ => nofun) fun _ => nofun
      exact w.balancing.insertColor_toList ..
  | @adopt gg _ r tcr idle search live present unwanted lost =>
    have quiet := Ghost.quiet_update (gg.lend r) r
    have moved := SamePositions.modify (w.rules_adopted r tcr) (fun _ => ⟨rfl, rfl, rfl, rfl⟩) live
      (by rw [kind_objRef, kind_objRef]; exact live) rfl rfl
    exact (positioned.quiet quiet).same moved notes positioned.waits
      fun tcr task => absurd task (quiet.request tcr)
  | @place gg _ placed _ chainNo prio tcr idle search place inserted =>
    obtain ⟨⟨chainTree, rfl, chained⟩, small, free⟩ :=
      (positioned.requested tcr rfl search).place positioned place
    obtain ⟨-, linked, link, rfl⟩ := objRulePosInsert_alloc (w := { w with chainTree }) inserted
    refine positioned.alloc bound rfl rfl rfl rfl ⟨chained.ordered, chained.small⟩ rfl small link
      rfl ?_ (fun kept => ?_) (fun _ => nofun) fun _ => nofun
    · cases linked with
      | none => rfl
      | some linked => exact w.balancing.insertColor_toList ..
    · have isStrict : strict := kept.resolve_right nofun
      obtain ⟨new, success⟩ := positioned.placed.link bound
        (positioned.placed.absent (free isStrict))
        (show (objRuleAlloc { chainNo, prio, wantTcr := some tcr, obj := { refcnt := 1 } }
          { w with chainTree }).2.rules = _ from rfl) w.rules.next
      rw [show linked = some new from Except.ok.inj (link.symm.trans success)]
      rfl
  | decline idle _ _ _ => exact positioned.quiet idle.quiet
  | begin idle _ => exact positioned.quiet ⟨idle.quiet.report, idle.quiet.request⟩
  | aim _ _ _ => simp at alone
  | reaim _ _ _ => simp at alone
  | demand _ _ _ => simp at alone
  | plant _ _ => simp at alone
  | finish _ _ => simp at alone
  | shut idle _ => exact positioned.quiet idle.quiet

end Preservation

/-- The rules of a run of the rule objects, with their positions. -/
structure Stationed (strict : Prop) (g : Ghost) (w : World) : Prop where
  orderly : Orderly g w
  positioned : Positioned strict g w

/-- What an event needs: a number of a chain has 28 bits, and a rule that is requested fits. -/
def RuleEvent.Fits (strict : Prop) (s : Owners) : RuleEvent → Prop
  | .staticWant chainNo _ _ => chainNo.toNat < 2 ^ 28
  | .request tcr => objRuleLafLookup tcr s.world = .ok none → s.world.Fits strict tcr
  | .message _ chainNo _ _ => chainNo.toNat < 2 ^ 28
  | .foreign note => note.chainNo.toNat < 2 ^ 28
  | _ => True

/-- The same for events with chains. -/
def ChainEvent.Fits (strict : Prop) (s : Owners) : ChainEvent → Prop
  | .rule e => e.Fits strict s
  | .gotChain chainNo => chainNo.toNat < 2 ^ 28

section Runs

variable {strict : Prop} {g : Ghost} {w w' : World}

/-- The numbers of the kernel's chains are small. -/
theorem small_of_lt {chainNo : UInt32} (bound : chainNo.toNat < 2 ^ 28) : Small chainNo :=
  Nat.lt_trans bound (by decide)

/-- Every effect keeps the positions of a run. -/
theorem keeps_stationed : Keeps (Stationed strict) where
  sound stationed := stationed.orderly.sound
  kept stationed effect := by
    obtain ⟨orderly, positioned⟩ := stationed
    exact ⟨keeps_orderly.kept orderly effect,
      effect.positioned orderly.sound orderly.alone.installing positioned⟩

/-- A static rule comes to a free position. -/
theorem Positioned.staticWant (positioned : Positioned strict g w)
    (bound : ∀ r, w.Live r → r < w.rules.next) {chainNo : UInt32} {prio : UInt16} {tcr : TcRule}
    (small : Small chainNo) (search : objRulePosLookup chainNo prio w = .ok none)
    (inserted : objRulePosInsert w.rules.next (objRuleAlloc {
      chainNo, prio, type := .static, wantTcr := some tcr } w).2 = .ok w') :
    Positioned strict (g.ask (.update w.rules.next)) w' := by
  obtain ⟨-, linked, link, rfl⟩ := objRulePosInsert_alloc inserted
  obtain ⟨new, success⟩ := positioned.placed.link bound search
    (show (objRuleAlloc { chainNo, prio, type := .static, wantTcr := some tcr } w).2.rules = _
      from rfl) w.rules.next
  have same : linked = some new := Except.ok.inj (link.symm.trans success)
  subst same
  refine positioned.alloc bound rfl rfl rfl rfl ⟨positioned.chained.ordered,
    positioned.chained.small⟩ rfl small link rfl ?_ (fun _ => rfl) (fun _ => nofun) fun _ => nofun
  exact w.balancing.insertColor_toList ..

/-- So does every step of `obj_rule_remove_pin`. -/
theorem unpins_stationed (s : Owners) : Unpins (Stationed strict) s.ghost where
  toKeeps := keeps_stationed
  visit r inside stationed :=
    ⟨(unpins_orderly s).visit r inside stationed.orderly,
      stationed.positioned.quiet (Ghost.quiet_update _ r)⟩
  raise {w} pin nonzero stationed := by
    obtain ⟨orderly, positioned⟩ := stationed
    refine ⟨(unpins_orderly s).raise pin nonzero orderly, ?_⟩
    exact positioned.keep (Ghost.Free.quiet rfl) rfl rfl rfl positioned.notes rfl

/-- The first move of every event keeps the positions of a run. -/
theorem carries_stationed : Carries (fun s e => e.Fits strict s) (Stationed strict) where
  toKeeps := keeps_stationed
  staticWant {s chainNo prio tcr w} stationed fits search inserted := by
    obtain ⟨orderly, positioned⟩ := stationed
    refine ⟨carries_orderly.staticWant orderly trivial search inserted, ?_⟩
    exact positioned.staticWant (fun r live => (orderly.sound.counts.alive r live).2)
      (small_of_lt fits) search inserted
  request {s tcr} stationed fits := by
    refine ⟨carries_orderly.request stationed.orderly trivial, ?_⟩
    refine stationed.positioned.next (fun _ => nofun) fun other task => ?_
    cases task
    exact fits
  uninstall {s r} stationed _ live := by
    refine ⟨carries_orderly.uninstall stationed.orderly trivial live, ?_⟩
    refine (stationed.positioned.quiet (Ghost.quiet_update _ r)).write ?_ (fun _ => rfl) live live
    exact fun _ => ⟨rfl, rfl, rfl, rfl⟩
  removePin {s} bound stationed _ zero :=
    objRuleRemovePin_keeps (unpins_stationed s) bound s.ready bound zero stationed
  message {s nlmsgType chainNo prio tcr} stationed fits := by
    refine ⟨carries_orderly.message stationed.orderly trivial, ?_⟩
    refine stationed.positioned.next (fun note task => ?_) fun _ => nofun
    cases task
    exact small_of_lt fits
  completed {s _ queue} stationed _ completed := by
    obtain ⟨orderly, positioned⟩ := stationed
    refine ⟨carries_orderly.completed orderly trivial completed, ?_⟩
    exact positioned.keep (Ghost.Free.quiet rfl) rfl rfl rfl positioned.notes
      (waiting_handleQueueCompleted completed)
  notified {s note notes} stationed _ here := by
    obtain ⟨orderly, positioned⟩ := stationed
    have small : ∀ other ∈ note :: notes, Small other.chainNo := here ▸ positioned.notes
    refine ⟨carries_orderly.notified orderly trivial here, ?_⟩
    refine Positioned.next (g := s.ghost) ?_ (fun other task => ?_) fun _ => nofun
    · exact positioned.keep (Ghost.Free.quiet rfl) rfl rfl rfl
        (fun other member => small other (List.mem_cons_of_mem _ member)) rfl
    · cases task
      exact small note List.mem_cons_self
  foreign {s note} stationed fits := by
    obtain ⟨orderly, positioned⟩ := stationed
    refine ⟨carries_orderly.foreign orderly trivial, ?_⟩
    refine positioned.keep (Ghost.Free.quiet rfl) rfl rfl rfl (fun other member => ?_) rfl
    rcases List.mem_append.mp member with before | new
    · exact positioned.notes other before
    · rw [List.mem_singleton.mp new]
      exact small_of_lt fits
  echoing {s echoes} stationed _ := by
    obtain ⟨orderly, positioned⟩ := stationed
    refine ⟨carries_orderly.echoing orderly trivial, ?_⟩
    exact positioned.keep (Ghost.Free.quiet rfl) rfl rfl rfl positioned.notes rfl

/-- The chains that the kernel reports take their places in the tree. -/
theorem Chained.gotChain (chained : Chained w) {chainNo : UInt32} (bound : chainNo.toNat < 2 ^ 28)
    (got : filterGotChain chainNo w = .ok w') :
    ∃ chainTree, w' = { w with chainTree } ∧ Chained w' := by
  rw [filterGotChain] at got
  by_cases inside : chainNo ∈ w.chainTree.toList
  · rw [Chained.lookup_mem chained.ordered (fun ch => chained.smallOf) inside, ok_bind] at got
    cases got
    exact ⟨w.chainTree, rfl, chained⟩
  · obtain ⟨chainTree, inserted, members, ordered⟩ := chained.insert (small_of_lt bound) inside
    rw [Chained.lookup_absent inside, ok_bind, inserted, ok_bind] at got
    obtain ⟨_, -, got⟩ := bind_returned got
    cases got
    refine ⟨chainTree, rfl, ordered, fun ch member => ?_⟩
    rcases (members ch).mp member with rfl | old
    · exact Nat.lt_trans bound (by decide)
    · exact chained.small ch old

/-- A chain changes nothing about the rules. -/
theorem Stationed.gotChain (stationed : Stationed strict g w) (free : g.Free) {chainNo : UInt32}
    (bound : chainNo.toNat < 2 ^ 28) (got : filterGotChain chainNo w = .ok w') :
    Stationed strict g w' ∧ w'.pinChanges = w.pinChanges := by
  obtain ⟨orderly, positioned⟩ := stationed
  obtain ⟨chainTree, rfl, chained⟩ := positioned.chained.gotChain bound got
  have kept : g.next none = g := by
    rw [Ghost.Free] at free
    rw [Ghost.next, ← free]
  refine ⟨⟨?_, ?_⟩, rfl⟩
  · rw [← kept]
    exact @Orderly.keep g w { w with chainTree } orderly rfl rfl rfl rfl rfl
      orderly.states.pinned free none
  · exact ⟨⟨positioned.placed.member, positioned.placed.ordered⟩, chained, positioned.flagged,
      positioned.small, positioned.inside, positioned.notes, positioned.waits, positioned.reported,
      fun tcr task => absurd task (free.quiet.request tcr)⟩

/-- The positions of a blank world. -/
theorem World.Blank.stationed (blank : w.Blank) : Stationed strict {} w := by
  obtain ⟨conn, queue⟩ := blank.queue
  have cell : ∀ r, ¬ w.Live r := fun r live => by
    rw [World.Live, blank.rules] at live
    cases live
  have empty : w.posTree.toList = [] := by rw [blank.posTree]; rfl
  refine ⟨blank.orderly, ⟨⟨?_, ?_⟩, ⟨?_, ?_⟩, ?_, fun r live => absurd live (cell r),
    fun r live => absurd live (cell r), ?_, ?_, fun _ task => (by cases task),
    fun _ task => by cases task⟩⟩
  · rw [empty]
    exact fun _ member => absurd member List.not_mem_nil
  · rw [empty]
    exact .nil
  · rw [blank.chainTree]
    exact .nil
  · rw [blank.chainTree]
    exact fun _ member => absurd member List.not_mem_nil
  · rw [empty]
    exact fun _ member => absurd member List.not_mem_nil
  · rw [blank.notes]
    exact fun _ member => absurd member List.not_mem_nil
  · rw [World.waiting, queue]
    exact fun _ member => absurd member List.not_mem_nil

/-- The positions between two events of a run. -/
theorem Owners.ChainReached.stationed {s : Owners} (blank : w.Blank)
    (reached : ChainReached (fun s e => e.Fits strict s) w s) :
    Between (Stationed strict) s := by
  induction reached with
  | start => exact ⟨blank.stationed, .inl blank.pinChanges⟩
  | @step s s' e _ _ allowed fits ran ih =>
    cases e with
    | rule e => exact (RuleEvent.run_keeps carries_stationed allowed fits ih _).of_ok ran
    | gotChain chainNo =>
      obtain ⟨w', got, ran⟩ := bind_returned ran
      cases ran
      obtain ⟨kept, same⟩ := ih.kept.gotChain (show s.ghost.Free from rfl) fits got
      exact ⟨kept, same ▸ ih.pins⟩

end Runs

/-- Between two events of every run in which requests fit, no two rules are at one position, and
the lookup by position finds every rule. -/
theorem positions_unique {w : World} (blank : w.Blank) {s : Owners}
    (reached : Owners.ChainReached (fun s e => e.Fits True s) w s) :
    (∀ r p, s.world.Live r → s.world.Live p →
      (s.world.rules.cell r).chainNo = (s.world.rules.cell p).chainNo →
      (s.world.rules.cell r).prio = (s.world.rules.cell p).prio → r = p) ∧
    ∀ r, s.world.Live r →
      objRulePosLookup (s.world.rules.cell r).chainNo (s.world.rules.cell r).prio s.world =
        .ok (some r) := by
  obtain ⟨⟨-, positioned⟩, -⟩ := reached.stationed blank
  have inside : ∀ r, s.world.Live r → r ∈ s.world.posTree.toList := fun r live =>
    positioned.inside r live (.inl trivial)
  constructor
  · intro r p live live' chain prio
    exact positioned.placed.unique (inside r live) (inside p live') chain prio
  · intro r live
    exact positioned.placed.find (inside r live)

/-- A chain and a filter in it are found, then a FORWARD rule is requested. -/
theorem positions_unique_beside_found : ∃ s,
    Owners.chainPlay 9 [.gotChain 5, .rule (.message rtmNewtfilter 5 1 (forwardRule 8)),
      .rule (.request (forwardRule 7))] { world := blankWorld } = .ok s ∧
    s.world.Live 1 ∧ objRulePosLookup 6 1 s.world = .ok (some 1) := by
  obtain ⟨found, played, rules, chain, chains, s, ran, both, live, chainNo, prio⟩ : ∃ found,
      Owners.chainPlay 9 [.gotChain 5, .rule (.message rtmNewtfilter 5 1 (forwardRule 8))]
        { world := blankWorld } = .ok found ∧ found.world.rules.next = 1 ∧
      (found.world.rules.cell 0).chainNo = 5 ∧
      (∃ w, filterFindAvailableChainNo 5 found.world = .ok (6, w)) ∧
      ∃ s, ChainEvent.run 9 found (.rule (.request (forwardRule 7))) = .ok s ∧
        Owners.chainPlay 9 [.gotChain 5, .rule (.message rtmNewtfilter 5 1 (forwardRule 8)),
          .rule (.request (forwardRule 7))] { world := blankWorld } = .ok s ∧
        s.world.Live 1 ∧ (s.world.rules.cell 1).chainNo = 6 ∧ (s.world.rules.cell 1).prio = 1 :=
    ⟨_, rfl, rfl, rfl, ⟨_, rfl⟩, _, rfl, rfl, rfl, rfl, rfl⟩
  have reached : Owners.ChainReached (fun s e => e.Fits True s) blankWorld found := by
    refine Owners.chainPlay_reached .start (fun s e inside => ?_) played
    simp only [List.mem_cons, List.not_mem_nil, or_false] at inside
    rcases inside with rfl | rfl
    · exact (by decide : (5 : UInt32).toNat < 2 ^ 28)
    · exact (by decide : (5 : UInt32).toNat < 2 ^ 28)
  have stationed := (reached.stationed blankWorld_blank).kept
  obtain ⟨_, six⟩ := chains
  obtain ⟨ret, tree, search, next, -⟩ :=
    stationed.positioned.chained.findAvailable (show Small 5 by decide)
  rw [six] at search
  cases search
  -- the next chain is 6, which no rule is in
  have fits : ChainEvent.Fits True found (.rule (.request (forwardRule 7))) := fun _ => by
    refine ⟨fun _ other next' => ?_, fun _ type => nomatch type⟩
    rw [next'.unique next]
    refine ⟨by decide, fun _ ⟨r, live, here, _⟩ => ?_⟩
    have first : r < 1 := rules ▸ (stationed.orderly.sound.counts.alive r live).2
    rw [Nat.lt_one_iff.mp first, chain] at here
    exact absurd here (by decide)
  have allowed : ChainEvent.Allowed found (.rule (.request (forwardRule 7))) := trivial
  have unique := (positions_unique blankWorld_blank (reached.step allowed fits ran)).2 1 live
  rw [chainNo, prio] at unique
  exact ⟨s, both, live, unique⟩

/-- A filter is found in a chain that was not reported, and a FORWARD rule is placed there too. -/
theorem positions_unique_fails : ∃ s,
    Owners.ChainReached (fun _ _ => True) blankWorld s ∧
    Owners.chainPlay 9 [.rule (.message rtmNewtfilter 5 1 (forwardRule 8)),
      .rule (.request (forwardRule 7))] { world := blankWorld } = .ok s ∧
    s.world.Live 0 ∧ s.world.Live 1 ∧
    (s.world.rules.cell 0).chainNo = (s.world.rules.cell 1).chainNo ∧
    (s.world.rules.cell 0).prio = (s.world.rules.cell 1).prio ∧
    objRulePosLookup (s.world.rules.cell 1).chainNo (s.world.rules.cell 1).prio s.world =
      .ok (some 0) := by
  obtain ⟨s, played⟩ : ∃ s, Owners.chainPlay 9 [.rule (.message rtmNewtfilter 5 1 (forwardRule 8)),
      .rule (.request (forwardRule 7))] { world := blankWorld } = .ok s := ⟨_, rfl⟩
  refine ⟨s, Owners.chainPlay_reached .start (fun _ _ _ => trivial) played, played, ?_⟩
  cases played
  exact ⟨rfl, rfl, rfl, rfl, rfl⟩

end FlowerRoute
