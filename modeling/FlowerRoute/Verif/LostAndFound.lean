import FlowerRoute.Verif.OtherFilters
import FlowerRoute.Verif.PositionRuns

/-!
# The lost and found

The tree of the rules that were found and that nobody wants, searched by what they have. A node's
key is the content of its rule, so the tree is an index as long as the content of a rule in it
changes neither its place in the order nor to nothing.
-/

namespace FlowerRoute

open Outcome

/-- One rule has a lesser content than another. -/
def World.LafBefore (w : World) (r p : RuleId) : Prop :=
  ∃ a b, (w.rules.cell r).haveTcr = some a ∧ (w.rules.cell p).haveTcr = some b ∧ a.memcmp b < 0

/-- The tree is an index: its rules have contents, in ascending order. -/
structure World.LafOrdered (w : World) : Prop where
  member : ∀ r ∈ w.lafTree.toList, w.Live r ∧ (w.rules.cell r).haveTcr ≠ none
  ordered : w.lafTree.toList.Pairwise w.LafBefore

/-- A content has the place of a rule's own one among the contents of the others in the tree. -/
def World.KeepsOrder (w : World) (r : RuleId) (tcr : TcRule) : Prop :=
  r ∈ w.lafTree.toList → ∀ p ∈ w.lafTree.toList, p ≠ r → ∀ a b,
    (w.rules.cell r).haveTcr = some a → (w.rules.cell p).haveTcr = some b →
    (tcr.memcmp b < 0 ↔ a.memcmp b < 0) ∧ (0 < tcr.memcmp b ↔ 0 < a.memcmp b)

/-- A report leaves the tree an index: it takes no content from a rule in it, and gives such a
rule none that belongs elsewhere. -/
structure World.Heeds (w : World) (note : Note) : Prop where
  gone : note.filter = none → ∀ tcr r,
    objRuleFind note.chainNo note.prio tcr w = .ok (some r) → r ∉ w.lafTree.toList
  changed : ∀ tcr, note.filter = some tcr → ∀ r,
    objRuleFind note.chainNo note.prio tcr w = .ok (some r) → w.KeepsOrder r tcr

/-- The tree is an index, against a kernel that reports later. -/
structure Indexed (g : Ghost) (w : World) : Prop where
  silent : w.kernel.echoes = false
  member : ∀ r ∈ w.lafTree.toList, w.Live r ∧ (w.rules.cell r).haveLaf = true ∧
    (w.rules.cell r).haveTcr ≠ none
  ordered : w.lafTree.toList.Pairwise w.LafBefore
  heeded : ∀ note, g.task = some (.report note) → w.Heeds note

section Preservation

variable {g g' : Ghost} {w w' : World}

/-- Contents that come one after the other. -/
theorem World.LafBefore.trans {a b c : RuleId} (first : w.LafBefore a b)
    (second : w.LafBefore b c) : w.LafBefore a c := by
  obtain ⟨x, y, hasA, hasB, less⟩ := first
  obtain ⟨y', z, hasB', hasC, less'⟩ := second
  rw [hasB] at hasB'
  cases hasB'
  refine ⟨x, z, hasA, hasC, ?_⟩
  rw [TcRule.memcmp] at *
  omega

/-- No content is less than itself. -/
theorem World.LafBefore.irrefl {r : RuleId} : ¬ w.LafBefore r r := by
  rintro ⟨a, b, hasA, hasB, less⟩
  rw [hasA] at hasB
  cases hasB
  rw [TcRule.memcmp_eq_zero.mpr rfl] at less
  exact absurd less (Int.lt_irrefl 0)

/-- The search for a position depends on the trees and on where the rules are and what they have. -/
theorem objRuleFind_congr {chainNo : UInt32} {prio : UInt16} {tcr : TcRule}
    (same : SamePositions w w') (tree : w'.lafTree = w.lafTree)
    (content : ∀ r, (w'.rules.cell r).haveTcr = (w.rules.cell r).haveTcr) :
    objRuleFind chainNo prio tcr w' = objRuleFind chainNo prio tcr w := by
  have position : objRulePosLookup chainNo prio w' = objRulePosLookup chainNo prio w := by
    rw [objRulePosLookup, objRulePosLookup, same.posTree]
    refine SearchTree.find_congr fun r _ => ?_
    by_cases live : w.Live r
    · rw [posCompare_live live, posCompare_live ((same.live r).mpr live), (same.place r).1,
        (same.place r).2.1]
    · rw [posCompare, posCompare, rule_dead live, rule_dead fun here => live ((same.live r).mp here)]
  rw [objRuleFind, objRuleFind, position, objRuleLafLookup_congr tree same.live content]
  congr 1
  funext found
  cases found with
  | some r => rfl
  | none =>
    dsimp only
    congr 1
    funext found
    cases found with
    | none => rfl
    | some r =>
      dsimp only
      by_cases live : w.Live r
      · rw [rule_live live, rule_live ((same.live r).mpr live), ok_bind, ok_bind, (same.place r).1,
          (same.place r).2.1]
      · rw [rule_dead live, rule_dead fun here => live ((same.live r).mp here)]

namespace Indexed

/-- Then the tree is an index in the world it is about. -/
theorem index (indexed : Indexed g w) : w.LafOrdered where
  member r inside := ⟨(indexed.member r inside).1, (indexed.member r inside).2.2⟩
  ordered := indexed.ordered

/-- The rules of the tree are distinct. -/
theorem nodup (indexed : Indexed g w) : w.lafTree.toList.Nodup :=
  indexed.ordered.imp fun before same => by
    subst same
    exact absurd before World.LafBefore.irrefl

/-- Another task. -/
theorem next (indexed : Indexed g w) (heeded : ∀ note, g'.task = some (.report note) →
    w.Heeds note) : Indexed g' w :=
  { indexed with heeded }

/-- What is preserved where the rules of the tree keep what they have. -/
theorem same (indexed : Indexed g w) (echoes : w'.kernel.echoes = w.kernel.echoes)
    (tree : w'.lafTree = w.lafTree)
    (keep : ∀ r ∈ w.lafTree.toList, (w.Live r → w'.Live r) ∧
      (w'.rules.cell r).haveLaf = (w.rules.cell r).haveLaf ∧
      (w'.rules.cell r).haveTcr = (w.rules.cell r).haveTcr)
    (heeded : ∀ note, g'.task = some (.report note) → w'.Heeds note) : Indexed g' w' where
  silent := echoes.trans indexed.silent
  member r inside := by
    rw [tree] at inside
    obtain ⟨live, flag, present⟩ := indexed.member r inside
    obtain ⟨kept, laf, content⟩ := keep r inside
    rw [laf, content]
    exact ⟨kept live, flag, present⟩
  ordered := by
    rw [tree]
    refine indexed.ordered.imp_of_mem fun {r p} first second before => ?_
    rw [World.LafBefore, (keep r first).2.2, (keep p second).2.2]
    exact before
  heeded := heeded

/-- What a change of one rule preserves that is not in the tree or keeps what it has. -/
theorem modify (indexed : Indexed g w) {r : RuleId} {f : ObjRule → ObjRule}
    (rules : w'.rules = w.rules.modify r f) (echoes : w'.kernel.echoes = w.kernel.echoes)
    (tree : w'.lafTree = w.lafTree)
    (keep : r ∈ w.lafTree.toList → (f (w.rules.cell r)).obj.kind = .rule ∧
      (f (w.rules.cell r)).haveLaf = (w.rules.cell r).haveLaf ∧
      (f (w.rules.cell r)).haveTcr = (w.rules.cell r).haveTcr)
    (heeded : ∀ note, g'.task = some (.report note) → w'.Heeds note) : Indexed g' w' := by
  refine indexed.same echoes tree (fun p inside => ?_) heeded
  by_cases same : p = r
  · subst same
    obtain ⟨kind, kept⟩ := keep inside
    rw [World.Live, World.Live, rules, Heap.cell_modify_same]
    exact ⟨fun _ => kind, kept⟩
  · rw [World.Live, World.Live, rules, Heap.cell_modify_ne _ _ same]
    exact ⟨id, rfl, rfl⟩

/-- A rule gets another content in its place. -/
theorem change (indexed : Indexed g w) {r : RuleId} {tcr : TcRule} {f : ObjRule → ObjRule}
    (rules : w'.rules = w.rules.modify r f) (echoes : w'.kernel.echoes = w.kernel.echoes)
    (tree : w'.lafTree = w.lafTree) (kind : (f (w.rules.cell r)).obj.kind = .rule)
    (flag : (f (w.rules.cell r)).haveLaf = (w.rules.cell r).haveLaf)
    (content : (f (w.rules.cell r)).haveTcr = some tcr) (order : w.KeepsOrder r tcr)
    (heeded : ∀ note, g'.task = some (.report note) → w'.Heeds note) : Indexed g' w' where
  silent := echoes.trans indexed.silent
  member p inside := by
    rw [tree] at inside
    have before := indexed.member p inside
    by_cases same : p = r
    · subst same
      rw [World.Live, rules, Heap.cell_modify_same, flag, content]
      exact ⟨kind, before.2.1, Option.some_ne_none tcr⟩
    · rw [World.Live, rules, Heap.cell_modify_ne _ _ same]
      exact before
  ordered := by
    rw [tree]
    refine indexed.ordered.imp_of_mem fun {p q} first second before => ?_
    have apart : p ≠ q := fun same => World.LafBefore.irrefl (same ▸ before)
    obtain ⟨a, b, hasP, hasQ, less⟩ := before
    rw [World.LafBefore, rules]
    by_cases here : p = r
    · subst here
      have kept := order first q second apart.symm a b hasP hasQ
      rw [Heap.cell_modify_same, Heap.cell_modify_ne _ _ apart.symm, content]
      exact ⟨tcr, b, rfl, hasQ, kept.1.mpr less⟩
    · rw [Heap.cell_modify_ne _ _ here]
      by_cases there : q = r
      · subst there
        have kept := order second p first apart b a hasQ hasP
        rw [Heap.cell_modify_same, content]
        refine ⟨a, tcr, hasP, rfl, ?_⟩
        have greater : 0 < tcr.memcmp a := kept.2.mpr (by rw [TcRule.memcmp] at *; omega)
        rw [TcRule.memcmp] at *
        omega
      · rw [Heap.cell_modify_ne _ _ there]
        exact ⟨a, b, hasP, hasQ, less⟩
  heeded := heeded

/-- A rule leaves the tree. -/
theorem erase (indexed : Indexed g w) {r : RuleId} {f : ObjRule → ObjRule}
    (rules : w'.rules = w.rules.modify r f) (echoes : w'.kernel.echoes = w.kernel.echoes)
    (tree : w'.lafTree.toList = w.lafTree.toList.erase r)
    (heeded : ∀ note, g'.task = some (.report note) → w'.Heeds note) : Indexed g' w' where
  silent := echoes.trans indexed.silent
  member p inside := by
    rw [tree, indexed.nodup.mem_erase_iff] at inside
    rw [World.Live, rules, Heap.cell_modify_ne _ _ inside.1]
    exact indexed.member p inside.2
  ordered := by
    rw [tree]
    refine (indexed.ordered.sublist List.erase_sublist).imp_of_mem fun {p q} first second before => ?_
    rw [indexed.nodup.mem_erase_iff] at first second
    rw [World.LafBefore, rules, Heap.cell_modify_ne _ _ first.1, Heap.cell_modify_ne _ _ second.1]
    exact before
  heeded := heeded

/-- A new rule comes into the tree, or stays outside. -/
theorem alloc (indexed : Indexed g w) (bound : ∀ r, w.Live r → r < w.rules.next)
    {rule rule₁ : ObjRule} {w₁ : World} {laf : Option (SearchTree RuleId)} {tcr : TcRule}
    (rules : w'.rules = w.rules.alloc rule) (rules₁ : w₁.rules = w.rules.alloc rule₁)
    (echoes : w'.kernel.echoes = w.kernel.echoes)
    (link : laf ≠ none → w.lafTree.link (lafCompare tcr w₁) w.rules.next = .ok laf ∧
      rule.obj.kind = .rule ∧ rule.haveLaf = true ∧ rule.haveTcr = some tcr)
    (tree : w'.lafTree.toList = (laf.map SearchTree.toList).getD w.lafTree.toList)
    (heeded : ∀ note, g'.task = some (.report note) → w'.Heeds note) : Indexed g' w' := by
  have own : w'.rules.cell w.rules.next = rule := by rw [rules, Heap.cell_alloc_same]
  have old : ∀ r ∈ w.lafTree.toList, w'.rules.cell r = w.rules.cell r := fun r inside => by
    rw [rules, Heap.cell_alloc_ne _ _ (Nat.ne_of_lt (bound r (indexed.member r inside).1))]
  have old₁ : ∀ r ∈ w.lafTree.toList, w₁.rules.cell r = w.rules.cell r := fun r inside => by
    rw [rules₁, Heap.cell_alloc_ne _ _ (Nat.ne_of_lt (bound r (indexed.member r inside).1))]
  have kept : w.lafTree.toList.Pairwise w'.LafBefore := by
    refine indexed.ordered.imp_of_mem fun {r p} first second before => ?_
    rw [World.LafBefore, old r first, old p second]
    exact before
  refine ⟨echoes.trans indexed.silent, fun r inside => ?_, ?_, heeded⟩
  · have before : r ∈ w.lafTree.toList → w'.Live r ∧ (w'.rules.cell r).haveLaf = true ∧
        (w'.rules.cell r).haveTcr ≠ none := fun inside => by
      rw [World.Live, old r inside]
      exact indexed.member r inside
    cases laf with
    | none =>
      rw [tree] at inside
      exact before inside
    | some linked =>
      obtain ⟨linking, kind, flag, content⟩ := link (Option.some_ne_none linked)
      rw [tree] at inside
      rcases (SearchTree.mem_link linking).mp inside with rfl | inside
      · rw [World.Live, own, content]
        exact ⟨kind, flag, Option.some_ne_none tcr⟩
      · exact before inside
  · rw [tree]
    cases laf with
    | none => exact kept
    | some linked =>
      obtain ⟨linking, kind, flag, content⟩ := link (Option.some_ne_none linked)
      have compared : ∀ r ∈ w.lafTree.toList, ∀ sign, lafCompare tcr w₁ r = .ok sign →
          ∃ b, (w'.rules.cell r).haveTcr = some b ∧ sign = tcr.memcmp b := fun r inside sign here => by
        obtain ⟨rule', followed, here⟩ := bind_returned here
        obtain ⟨-, rfl⟩ := rule_ok followed
        rw [old₁ r inside] at here
        rw [old r inside]
        split at here
        · cases here
        · next b has => exact ⟨b, has, (Except.ok.inj here).symm⟩
      refine SearchTree.pairwise_link linking (fun _ _ _ => World.LafBefore.trans)
        (fun r inside sign negative here => ?_) (fun r inside sign positive here => ?_) kept
      · obtain ⟨b, has, rfl⟩ := compared r inside sign here
        exact ⟨tcr, b, by rw [own, content], has, negative⟩
      · obtain ⟨b, has, rfl⟩ := compared r inside sign here
        refine ⟨b, tcr, has, by rw [own, content], ?_⟩
        rw [TcRule.memcmp] at *
        omega

end Indexed

/-- What a report leaves stays so, where the rules stay where they are and keep what they have. -/
theorem World.Heeds.same {note : Note} (heeds : w.Heeds note) (same : SamePositions w w')
    (tree : w'.lafTree = w.lafTree)
    (content : ∀ r, (w'.rules.cell r).haveTcr = (w.rules.cell r).haveTcr) : w'.Heeds note where
  gone absent tcr r search := by
    rw [objRuleFind_congr same tree content] at search
    rw [tree]
    exact heeds.gone absent tcr r search
  changed tcr present r search := by
    rw [objRuleFind_congr same tree content] at search
    simp only [KeepsOrder, tree, content]
    exact heeds.changed tcr present r search

/-- A write to a rule that keeps its place and what it has. -/
theorem World.Heeds.write {note : Note} (heeds : w.Heeds note) {r : RuleId} {f : ObjRule → ObjRule}
    (place : ∀ rule, (f rule).chainNo = rule.chainNo ∧ (f rule).prio = rule.prio ∧
      (f rule).havePos = rule.havePos ∧ (f rule).type = rule.type)
    (content : ∀ rule, (f rule).haveTcr = rule.haveTcr) (live : w.Live r)
    (kind : (f (w.rules.cell r)).obj.kind = .rule) : (w.setRule r f).Heeds note := by
  refine heeds.same (.modify (rules_setRule w r f) place live kind rfl rfl) rfl fun p => ?_
  exact Heap.cell_modify_field w.rules r p ObjRule.haveTcr content

/-- Every effect keeps the tree an index. -/
theorem Effect.indexed (sound : Sound g w) (indexed : Indexed g w)
    (effect : Effect g w g' w') : Indexed g' w' := by
  have bound : ∀ r, w.Live r → r < w.rules.next := fun r live => (sound.counts.alive r live).2
  have free : g'.Free → ∀ note, g'.task = some (.report note) → w'.Heeds note :=
    fun free note task => absurd task (free.quiet.report note)
  cases effect with
  | ref live =>
    have kind := fun c : ObjCore => kind_objRef c
    refine indexed.modify (rules_setRule ..) rfl rfl (fun _ => ⟨?_, rfl, rfl⟩) fun note task => ?_
    · exact (kind _).trans live
    · refine (indexed.heeded note task).write ?_ (fun _ => rfl) live ((kind _).trans live)
      exact fun _ => ⟨rfl, rfl, rfl, rfl⟩
  | unref live counted =>
    obtain ⟨rfl, -⟩ := objUnref_ok counted
    refine indexed.modify (rules_setRule ..) rfl rfl (fun _ => ⟨live, rfl, rfl⟩) fun note task => ?_
    refine (indexed.heeded note task).write ?_ (fun _ => rfl) live live
    exact fun _ => ⟨rfl, rfl, rfl, rfl⟩
  | @unwant _ _ r _ live _ _ _ _ _ =>
    refine indexed.modify (rules_setRule ..) rfl rfl (fun _ => ⟨live, rfl, rfl⟩) fun _ task => by cases task
  | @reap _ _ _ r idle live _ reaped =>
    obtain ⟨rfl, -⟩ := objRuleReap_ok reaped
    have rules : (w.reaped r).rules = w.rules.modify r ObjRule.reaped := by
      simp [World.reaped, World.setRule]
    have kernel : (w.reaped r).kernel = w.kernel := by simp [World.reaped, World.setRule]
    refine indexed.erase rules (by rw [kernel]) ?_ (free idle)
    by_cases flag : (w.rules.cell r).haveLaf = true
    · simp [World.reaped, flag, w.balancing.erase_toList]
    · have outside : r ∉ w.lafTree.toList := fun inside => flag (indexed.member r inside).2.1
      simp [World.reaped, flag, List.erase_of_not_mem outside]
  | skip idle _ => exact indexed.next (free idle)
  | settle idle live _ _ _ =>
    exact indexed.modify (rules_setRule ..) rfl rfl (fun _ => ⟨live, rfl, rfl⟩) (free idle)
  | confirm idle live _ _ _ _ _ =>
    exact indexed.modify (rules_setRule ..) rfl rfl (fun _ => ⟨live, rfl, rfl⟩) (free idle)
  | schedule idle live _ _ _ _ _ =>
    refine indexed.modify (w.rules_scheduled _) rfl rfl (fun _ => ⟨?_, rfl, rfl⟩) (free idle)
    rw [kind_objRef]
    exact live
  | execute idle started live =>
    have silent := indexed.silent
    refine indexed.modify (w.rules_executed ..) ?_ rfl (fun _ => ⟨live, rfl, rfl⟩)
      fun note task => ?_
    · simp only [World.executed, silent, Bool.false_eq_true, if_false]
      rw [← silent]
      exact answer_echoes _
    · simp [World.echo, silent] at task
  | complete idle completed =>
    exact indexed.same rfl rfl (fun _ _ => ⟨id, rfl, rfl⟩)
      fun note task => absurd task (idle.quiet.report note)
  | leave idle _ => exact indexed.next fun note task => absurd task (idle.quiet.report note)
  | ignore idle _ _ => exact indexed.same rfl rfl (fun _ _ => ⟨id, rfl, rfl⟩) (free idle)
  | @found gg _ r chainNo prio tcr idle search live chain position differs =>
    refine indexed.change (rules_setRule ..) rfl rfl ?_ rfl rfl
      ((indexed.heeded _ rfl).changed tcr rfl r search) fun _ task => by cases task
    dsimp only
    split <;> exact live
  | @vanish gg _ r chainNo prio tcr idle search live =>
    refine indexed.modify (rules_setRule ..) rfl rfl (fun inside => ?_) fun note task => ?_
    · exact absurd inside ((indexed.heeded _ rfl).gone rfl tcr r search)
    · rw [Ghost.next_task] at task
      split at task <;> cases task
  | @discover gg _ _ _ chainNo prio tcr idle search inPos inLaf =>
    obtain ⟨_, pos, laf, content, -, -, -, link, rfl⟩ := objRuleNew_alloc inPos inLaf
    cases content
    obtain ⟨-, linked, -, rfl⟩ := objRulePosInsert_alloc inPos
    refine indexed.alloc bound rfl rfl rfl (fun present => ⟨link, rfl, ?_, rfl⟩) ?_ fun _ task => by cases task
    · exact Option.isSome_iff_ne_none.mpr present
    · cases laf with
      | none => rfl
      | some linked => exact w.balancing.insertColor_toList ..
  | @adopt gg _ r tcr idle search live present unwanted lost =>
    exact indexed.erase (w.rules_adopted r tcr) rfl (w.balancing.erase_toList r w.lafTree)
      fun _ task => by cases task
  | @place gg _ placed _ chainNo prio tcr idle search place inserted =>
    obtain ⟨⟨chainTree, rfl⟩, -⟩ := returns_iff.mp (schedBasicPlace_returns tcr w) _ place
    obtain ⟨-, linked, -, rfl⟩ := objRulePosInsert_alloc (w := { w with chainTree }) inserted
    exact @Indexed.alloc _ _ w _ indexed bound _ _ _ none tcr rfl
      (show (objRuleAlloc { chainNo, prio, wantTcr := some tcr, obj := { refcnt := 1 } }
        { w with chainTree }).2.rules = _ from rfl) rfl (fun none => absurd rfl none) rfl
      fun _ task => by cases task
  | decline idle _ _ _ => exact indexed.next (free idle)
  | begin idle _ => exact indexed.next (free idle)
  | aim idle _ _ => exact indexed.same rfl rfl (fun _ _ => ⟨id, rfl, rfl⟩) (free idle)
  | reaim idle _ _ => exact indexed.same rfl rfl (fun _ _ => ⟨id, rfl, rfl⟩) (free idle)
  | demand _ _ _ => exact indexed.next fun _ task => by cases task
  | plant idle _ =>
    refine indexed.same rfl rfl (fun _ _ => ⟨id, rfl, rfl⟩) fun note task => ?_
    rw [Ghost.task_lendSome] at task
    exact absurd task (idle.quiet.report note)
  | finish idle _ => exact indexed.next (free idle)
  | shut idle _ => exact indexed.next (free idle)

end Preservation

/-- What holds throughout a run in which the tree stays an index. -/
structure Filed (g : Ghost) (w : World) : Prop where
  orderly : Orderly g w
  indexed : Indexed g w

/-- What a report needs, which searches for a content: if it is about a rule of the tree, no action
waits for that rule when its filter is gone, and otherwise its new content keeps its place. -/
def World.Admits (w : World) (note : Note) (tcr : TcRule) : Prop :=
  ∀ r, objRuleFind note.chainNo note.prio tcr w = .ok (some r) →
    match note.filter with
    | none => r ∈ w.lafTree.toList → (w.rules.cell r).obj.refcnt = 0
    | some tcr => w.KeepsOrder r tcr

/-- What an event needs so that the tree stays an index. -/
def RuleEvent.Files (s : Owners) : RuleEvent → Prop
  | .message nlmsgType chainNo prio tcr => s.world.Admits
      ⟨chainNo, prio, if nlmsgType = rtmDeltfilter then none else some tcr⟩ tcr
  | .notified => ∀ note ∈ s.world.kernel.notes.head?,
      s.world.Admits note (note.filter.getD {})
  | .echoing echoes => echoes = false
  | _ => True

/-- The report of an event is not about a rule of the tree whose filter is gone. -/
def RuleEvent.Heeds (s : Owners) : RuleEvent → Prop
  | .message nlmsgType chainNo prio tcr => s.world.Heeds
      ⟨chainNo, prio, if nlmsgType = rtmDeltfilter then none else some tcr⟩
  | .notified => ∀ note ∈ s.world.kernel.notes.head?, s.world.Heeds note
  | .echoing echoes => echoes = false
  | _ => True

section Runs

variable {g : Ghost} {w w' : World}

/-- Every effect keeps it. -/
theorem keeps_filed : Keeps Filed where
  sound filed := filed.orderly.sound
  kept filed effect := by
    obtain ⟨orderly, indexed⟩ := filed
    exact ⟨keeps_orderly.kept orderly effect, effect.indexed orderly.sound indexed⟩

/-- So does every step of `obj_rule_remove_pin`. -/
theorem unpins_filed (s : Owners) : Unpins Filed s.ghost where
  toKeeps := keeps_filed
  visit r inside filed :=
    ⟨(unpins_orderly s).visit r inside filed.orderly, filed.indexed.next fun _ => nofun⟩
  raise {w} pin nonzero filed := by
    obtain ⟨orderly, indexed⟩ := filed
    refine ⟨(unpins_orderly s).raise pin nonzero orderly, ?_⟩
    exact indexed.same rfl rfl (fun _ _ => ⟨id, rfl, rfl⟩) fun _ => nofun

/-- The first move of every event keeps it whose report is heeded. -/
theorem carries_filed : Carries (fun s e => e.Heeds s) Filed where
  toKeeps := keeps_filed
  staticWant {s chainNo prio tcr w} filed _ search inserted := by
    obtain ⟨orderly, indexed⟩ := filed
    refine ⟨carries_orderly.staticWant orderly trivial search inserted, ?_⟩
    obtain ⟨-, linked, -, rfl⟩ := objRulePosInsert_alloc inserted
    exact @Indexed.alloc _ _ s.world _ indexed
      (fun r live => (orderly.sound.counts.alive r live).2) _ _ _ none tcr rfl
      (show (objRuleAlloc { chainNo, prio, type := .static, wantTcr := some tcr } s.world).2.rules
        = _ from rfl) rfl (fun none => absurd rfl none) rfl fun _ => nofun
  request {s tcr} filed _ :=
    ⟨carries_orderly.request filed.orderly trivial, filed.indexed.next fun _ => nofun⟩
  uninstall {s r} filed _ live := by
    refine ⟨carries_orderly.uninstall filed.orderly trivial live, ?_⟩
    exact filed.indexed.modify (rules_setRule ..) rfl rfl (fun _ => ⟨live, rfl, rfl⟩) fun _ => nofun
  removePin {s} bound filed _ zero :=
    objRuleRemovePin_keeps (unpins_filed s) bound s.ready bound zero filed
  message {s nlmsgType chainNo prio tcr} filed heeds := by
    refine ⟨carries_orderly.message filed.orderly trivial, filed.indexed.next fun note task => ?_⟩
    cases task
    exact heeds
  completed {s _ queue} filed _ completed := by
    obtain ⟨orderly, indexed⟩ := filed
    refine ⟨carries_orderly.completed orderly trivial completed, ?_⟩
    exact indexed.same rfl rfl (fun _ _ => ⟨id, rfl, rfl⟩) fun _ => nofun
  notified {s note notes} filed heeds here := by
    obtain ⟨orderly, indexed⟩ := filed
    have heeds : s.world.Heeds note := heeds note (by rw [here]; rfl)
    refine ⟨carries_orderly.notified orderly trivial here, ?_⟩
    refine indexed.same rfl rfl (fun _ _ => ⟨id, rfl, rfl⟩) fun other task => ?_
    cases task
    exact heeds.same ⟨fun _ => .rfl, fun _ => ⟨rfl, rfl, rfl, rfl⟩, rfl, rfl⟩ rfl fun _ => rfl
  foreign {s note} filed _ := by
    obtain ⟨orderly, indexed⟩ := filed
    refine ⟨carries_orderly.foreign orderly trivial, ?_⟩
    exact indexed.same rfl rfl (fun _ _ => ⟨id, rfl, rfl⟩) fun _ => nofun
  echoing {s echoes} filed silent := by
    obtain ⟨orderly, indexed⟩ := filed
    refine ⟨carries_orderly.echoing orderly trivial, ?_⟩
    have silent : echoes = false := silent
    subst silent
    exact ⟨rfl, indexed.member, indexed.ordered, fun _ => nofun⟩

/-- A rule of the tree that no action waits for is reaped when its filter is gone. -/
theorem objRuleNetlinkGone_lost {c : Calls} {chainNo : UInt32} {prio : UInt16} {tcr : TcRule}
    {r : RuleId} (indexed : Indexed g w) (free : g.Free) (inside : r ∈ w.lafTree.toList)
    (unwanted : (w.rules.cell r).wantTcr = none) (unused : (w.rules.cell r).obj.refcnt = 0)
    (search : objRuleFind chainNo prio tcr w = .ok (some r))
    (ran : objRuleNetlinkGone c chainNo prio tcr w = .ok w') : Indexed g w' := by
  obtain ⟨live, flag, -⟩ := indexed.member r inside
  have kind : (w.rules.cell r).vanished.obj.kind = .rule := by
    rw [ObjRule.vanished]
    exact (kind_objRef _).trans live
  have silent : (w.rules.cell r).wantTcr.isSome = false := by rw [unwanted]; rfl
  rw [objRuleNetlinkGone_found search, silent, if_neg Bool.false_ne_true, ok_bind] at ran
  obtain ⟨rule, followed, ran⟩ := bind_returned ran
  obtain ⟨-, rfl⟩ := rule_ok followed
  obtain ⟨obj, released, ran⟩ := bind_returned ran
  obtain ⟨rfl, -⟩ := objUnref_ok released
  rw [cell_setRule, setRule_setRule, World.rules_hears] at ran
  have kept : (w.rules.cell r).vanished.wantTcr = none := unwanted
  simp only [kept, Option.isSome_none, Bool.false_eq_true, false_and, and_false, if_false,
    pure_bind, cell_setRule, World.rules_hears] at ran
  obtain ⟨_, -, ran⟩ := bind_returned ran
  have last : (objRef (w.rules.cell r).obj).refcnt - 1 = 0 := by
    rw [objRef]
    split
    · rw [unused]
    · simp [unused]
  have reapable : ∀ mode, objIsReapable mode { (w.rules.cell r).vanished.obj with
      refcnt := (w.rules.cell r).vanished.obj.refcnt - 1 } = true := fun mode => by
    cases mode <;> simp [objIsReapable, ObjRule.vanished, last]
  rw [if_pos (reapable _)] at ran
  obtain ⟨rfl, -⟩ := objRuleReap_ok ran
  refine indexed.erase (r := r) (f := fun rule => ObjRule.reaped { rule.vanished with
    obj := { (w.rules.cell r).vanished.obj with
      refcnt := (w.rules.cell r).vanished.obj.refcnt - 1 } }) ?_ ?_ ?_
    fun note task => absurd task (free.quiet.report note)
  · simp [World.reaped, World.setRule, World.hears]
  · simp [World.reaped, World.setRule, World.hears]
  · have flag' : (w.rules.cell r).vanished.haveLaf = true := flag
    simp [World.reaped, World.setRule, World.hears, flag', w.balancing.erase_toList]

/-- A search that finds a rule outside the tree finds it by its position, whatever the content. -/
theorem objRuleFind_outside {chainNo : UInt32} {prio : UInt16} {tcr : TcRule} {r : RuleId}
    (search : objRuleFind chainNo prio tcr w = .ok (some r)) (outside : r ∉ w.lafTree.toList)
    (other : TcRule) : objRuleFind chainNo prio other w = .ok (some r) := by
  obtain ⟨found, byPosition, search⟩ := bind_returned search
  cases found with
  | some p =>
    cases search
    rw [objRuleFind, byPosition]
    rfl
  | none =>
    obtain ⟨found, byContent, search⟩ := bind_returned search
    cases found with
    | none => cases search
    | some p =>
      obtain ⟨rule, -, search⟩ := bind_returned search
      have chosen := Except.ok.inj search
      split at chosen
      · cases chosen
      · cases chosen
        exact absurd (SearchTree.find_some byContent).1 outside

/-- The report of a removed filter is heeded, or all that it does is done. -/
theorem objRuleNetlinkGone_indexed {c : Calls} {chainNo : UInt32} {prio : UInt16} {tcr : TcRule}
    (filed : Filed g w) (free : g.Free) (admits : w.Admits ⟨chainNo, prio, none⟩ tcr)
    (ran : objRuleNetlinkGone c chainNo prio tcr w = .ok w') :
    w.Heeds ⟨chainNo, prio, none⟩ ∨ Indexed g w' := by
  obtain ⟨orderly, indexed⟩ := filed
  have outcome := ran
  simp only [objRuleNetlinkGone, objRuleFind_hears] at outcome
  obtain ⟨found, search, outcome⟩ := bind_returned outcome
  cases found with
  | none =>
    cases outcome
    refine .inr (indexed.same rfl rfl (fun _ _ => ⟨id, rfl, rfl⟩) ?_)
    exact fun note task => absurd task (free.quiet.report note)
  | some r =>
    by_cases inside : r ∈ w.lafTree.toList
    · have unwanted := (orderly.sound.lost.unwanted r inside).2
      exact .inr (objRuleNetlinkGone_lost indexed free inside unwanted (admits r search inside)
        search ran)
    · refine .inl ⟨fun _ other p found => ?_, fun _ present => by cases present⟩
      have same := objRuleFind_outside search inside other
      rw [found] at same
      cases same
      exact inside

/-- What is done about a removed filter that a report leaves to `obj_rule_netlink_found`. -/
theorem objRuleNotified_indexed {c : Calls} {note : Note} (filed : Filed g w) (free : g.Free)
    (admits : w.Admits note (note.filter.getD {})) (ran : objRuleNotified c note w = .ok w') :
    w.Heeds note ∨ Indexed g w' := by
  obtain ⟨chainNo, prio, filter⟩ := note
  cases filter with
  | none => exact objRuleNetlinkGone_indexed filed free admits ran
  | some tcr =>
    refine .inl ⟨fun absent => (nomatch absent), fun other present r search => ?_⟩
    cases present
    exact admits r search

/-- Every event keeps the tree an index that gives no rule in it a content out of order, and takes
none from a rule in it that an action waits for. -/
theorem RuleEvent.run_filed {s s' : Owners} {e : RuleEvent} {bound : Nat}
    (allowed : e.Allowed s) (files : e.Files s) (before : Between Filed s)
    (ran : e.run bound s = .ok s') : Between Filed s' := by
  have orderly : Between Orderly s :=
    ⟨before.kept.orderly, before.pins⟩
  have after := (RuleEvent.run_keeps carries_orderly allowed trivial orderly bound).of_ok ran
  by_cases heeds : e.Heeds s
  · exact (RuleEvent.run_keeps carries_filed allowed heeds before bound).of_ok ran
  · refine ⟨⟨after.kept, ?_⟩, after.pins⟩
    cases e with
    | message nlmsgType chainNo prio tcr =>
      obtain ⟨w', outcome, ran⟩ := bind_returned ran
      cases ran
      rw [objRuleNetlink] at outcome
      rw [Heeds] at heeds
      rw [Files] at files
      split at outcome
      · next gone =>
        rw [if_pos gone] at heeds files
        exact (objRuleNetlinkGone_indexed before.kept rfl files outcome).resolve_left heeds
      · next found =>
        rw [if_neg found] at heeds files
        refine absurd ⟨fun absent => (by cases absent), fun other present r search => ?_⟩ heeds
        cases present
        exact files r search
    | notified =>
      rw [run] at ran
      cases notes : s.world.kernel.notes with
      | nil => exact absurd (by rw [Heeds, notes]; exact fun _ first => by cases first) heeds
      | cons note rest =>
        rw [notes] at ran
        obtain ⟨w', outcome, ran⟩ := bind_returned ran
        cases ran
        have admits := files note (by rw [notes]; rfl)
        have kept : Filed s.ghost { s.world with kernel := { s.world.kernel with notes := rest } } := by
          obtain ⟨orderly, indexed⟩ := before.kept
          refine ⟨@Orderly.keep _ s.world { s.world with kernel := { s.world.kernel with
            notes := rest } } orderly rfl rfl rfl rfl rfl orderly.states.pinned rfl none, ?_⟩
          exact indexed.same rfl rfl (fun _ _ => ⟨id, rfl, rfl⟩) fun _ task => by cases task
        rcases objRuleNotified_indexed kept rfl admits outcome with heeded | indexed
        · refine absurd (fun other first => ?_) heeds
          rw [notes] at first
          cases first
          exact heeded.same ⟨fun _ => .rfl, fun _ => ⟨rfl, rfl, rfl, rfl⟩, rfl, rfl⟩ rfl fun _ => rfl
        · exact indexed
    | staticWant _ _ _ => exact absurd trivial heeds
    | request _ => exact absurd trivial heeds
    | uninstall _ => exact absurd trivial heeds
    | ref _ => exact absurd trivial heeds
    | unref _ => exact absurd trivial heeds
    | removePin => exact absurd trivial heeds
    | completed => exact absurd trivial heeds
    | foreign _ => exact absurd trivial heeds
    | echoing _ => exact absurd files heeds

/-- The tree of a blank world. -/
theorem World.Blank.filed (blank : w.Blank) (silent : w.kernel.echoes = false) : Filed {} w := by
  have empty : w.lafTree.toList = [] := by rw [blank.lafTree]; rfl
  refine ⟨blank.orderly, silent, ?_, ?_, fun _ => nofun⟩
  · rw [empty]
    exact fun _ => nofun
  · rw [empty]
    exact .nil

/-- Two rules of the tree with one content are one. -/
theorem World.LafOrdered.unique (index : w.LafOrdered) {tcr : TcRule} {r p : RuleId}
    (first : r ∈ w.lafTree.toList) (second : p ∈ w.lafTree.toList)
    (has : (w.rules.cell r).haveTcr = some tcr) (has' : (w.rules.cell p).haveTcr = some tcr) :
    r = p := by
  have apart : r = p ∨ w.LafBefore r p ∨ w.LafBefore p r :=
    List.Pairwise.forall_of_forall_of_flip
      (R := fun a b => a = b ∨ w.LafBefore a b ∨ w.LafBefore b a) (fun _ _ => .inl rfl)
      (index.ordered.imp fun before => .inr (.inl before))
      (index.ordered.imp fun before => .inr (.inr before)) first second
  have equal : ∀ {a b}, (w.rules.cell a).haveTcr = some tcr → (w.rules.cell b).haveTcr = some tcr →
      ¬ w.LafBefore a b := fun hasA hasB before => by
    obtain ⟨x, y, hasX, hasY, less⟩ := before
    rw [hasA] at hasX
    rw [hasB] at hasY
    cases hasX
    cases hasY
    rw [TcRule.memcmp_eq_zero.mpr rfl] at less
    exact absurd less (Int.lt_irrefl 0)
  exact apart.resolve_right fun before => before.elim (equal has has') (equal has' has)

/-- In an index a search for a content finds the rule of the tree that has it. -/
theorem World.LafOrdered.lookup (index : w.LafOrdered) {tcr : TcRule} {r : RuleId} :
    objRuleLafLookup tcr w = .ok (some r) ↔
      r ∈ w.lafTree.toList ∧ (w.rules.cell r).haveTcr = some tcr := by
  have compare : ∀ p ∈ w.lafTree.toList, ∀ b, (w.rules.cell p).haveTcr = some b →
      lafCompare tcr w p = .ok (tcr.memcmp b) := fun p inside b has => by
    rw [lafCompare, rule_live (index.member p inside).1, ok_bind, has]
    rfl
  have content : ∀ p ∈ w.lafTree.toList, ∃ b, (w.rules.cell p).haveTcr = some b := fun p inside =>
    Option.ne_none_iff_exists'.mp (index.member p inside).2
  have found : ∀ p, objRuleLafLookup tcr w = .ok (some p) →
      p ∈ w.lafTree.toList ∧ (w.rules.cell p).haveTcr = some tcr := fun p search => by
    obtain ⟨inside, equal⟩ := SearchTree.find_some search
    obtain ⟨b, has⟩ := content p inside
    rw [compare p inside b has] at equal
    rw [has, TcRule.memcmp_eq_zero.mp (Except.ok.inj equal)]
    exact ⟨inside, rfl⟩
  refine ⟨found r, fun both => ?_⟩
  obtain ⟨inside, has⟩ := both
  obtain ⟨p, search⟩ := SearchTree.find_of_mem index.ordered inside
    (show lafCompare tcr w r = .ok 0 by
      rw [compare r inside tcr has, TcRule.memcmp_eq_zero.mpr rfl])
    (fun q other => by
      obtain ⟨b, hasB⟩ := content q other
      exact ⟨_, compare q other b hasB⟩)
    (fun q other before => by
      obtain ⟨a, b, hasA, hasB, less⟩ := before
      rw [has] at hasA
      cases hasA
      exact ⟨_, less, compare q other b hasB⟩)
    (fun q other before => by
      obtain ⟨a, b, hasA, hasB, less⟩ := before
      rw [has] at hasB
      cases hasB
      refine ⟨_, ?_, compare q other a hasA⟩
      rw [TcRule.memcmp] at *
      omega)
  obtain ⟨inside', has'⟩ := found p search
  rw [index.unique inside inside' has has']
  exact search

end Runs

/-- In every run that gives no rule of the lost and found a content out of order, and takes none
from such a rule while an action waits for it, the tree is an index between two events: its rules
have contents, in ascending order, and a search for a content finds the rule that has it. -/
theorem laf_index {w : World} (blank : w.Blank) (silent : w.kernel.echoes = false) {s : Owners}
    (reached : Owners.Reached (fun s e => e.Files s) w s) :
    (∀ r ∈ s.world.lafTree.toList, (s.world.rules.cell r).haveTcr ≠ none) ∧
    s.world.lafTree.toList.Pairwise s.world.LafBefore ∧
    ∀ tcr r, objRuleLafLookup tcr s.world = .ok (some r) ↔
      r ∈ s.world.lafTree.toList ∧ (s.world.rules.cell r).haveTcr = some tcr := by
  have between : Between Filed s := by
    induction reached with
    | start => exact ⟨blank.filed silent, .inl blank.pinChanges⟩
    | step _ allowed files ran ih => exact RuleEvent.run_filed allowed files ih ran
  obtain ⟨⟨-, indexed⟩, -⟩ := between
  exact ⟨fun r inside => (indexed.member r inside).2.2, indexed.ordered, fun _ _ => indexed.index.lookup⟩

/-- Two filters are found and a rule with the content of the second is looked for. -/
theorem laf_index_found : ∃ s,
    Owners.play 9 [.message rtmNewtfilter 5 1 (forwardRule 8),
      .message rtmNewtfilter 6 1 (forwardRule 7)] { world := blankWorld } = .ok s ∧
    objRuleLafLookup (forwardRule 7) s.world = .ok (some 1) := by
  obtain ⟨first, ran, free, s, ran', played, inside, content⟩ : ∃ first,
      RuleEvent.run 9 { world := blankWorld } (.message rtmNewtfilter 5 1 (forwardRule 8)) =
        .ok first ∧ objRuleFind 6 1 (forwardRule 7) first.world = .ok none ∧ ∃ s,
      RuleEvent.run 9 first (.message rtmNewtfilter 6 1 (forwardRule 7)) = .ok s ∧
      Owners.play 9 [.message rtmNewtfilter 5 1 (forwardRule 8),
        .message rtmNewtfilter 6 1 (forwardRule 7)] { world := blankWorld } = .ok s ∧
      s.world.lafTree.toList.contains 1 = true ∧
      (s.world.rules.cell 1).haveTcr = some (forwardRule 7) :=
    ⟨_, rfl, rfl, _, rfl, rfl, rfl, rfl⟩
  have files : RuleEvent.Files { world := blankWorld }
      (.message rtmNewtfilter 5 1 (forwardRule 8)) := fun r search => by
    have nothing : objRuleFind 5 1 (forwardRule 8) blankWorld = .ok none := rfl
    rw [nothing] at search
    cases search
  have files' : RuleEvent.Files first (.message rtmNewtfilter 6 1 (forwardRule 7)) :=
    fun r search => by
      rw [free] at search
      cases search
  have one : Owners.Reached (fun s e => e.Files s) blankWorld first :=
    .step .start (show RuleEvent.Allowed _ (.message rtmNewtfilter 5 1 (forwardRule 8)) from trivial)
      files ran
  have index := laf_index blankWorld_blank rfl (one.step
    (show RuleEvent.Allowed _ (.message rtmNewtfilter 6 1 (forwardRule 7)) from trivial) files' ran')
  exact ⟨s, played, (index.2.2 _ _).mpr ⟨List.contains_iff_mem.mp inside, content⟩⟩

/-- The filter of a rule whose uninstall waits behind another one is removed by another program. -/
theorem laf_index_fails : ∃ s,
    Owners.play 9 [.message rtmNewtfilter 5 1 (forwardRule 8),
      .message rtmNewtfilter 6 1 (forwardRule 7), .removePin,
      .message rtmDeltfilter 6 1 (forwardRule 7)] { world := blankWorld } = .ok s ∧
    1 ∈ s.world.lafTree.toList ∧ (s.world.rules.cell 1).haveTcr = none := by
  refine ⟨_, rfl, ?_, rfl⟩
  decide

end FlowerRoute
