import FlowerRoute.Verif.LostAndFound

/-!
# Adopted rules

Where the rules are that `obj_rule_prime_request` returns. A rule of the lost and found stays where
it was found, so it is where the scheduler could have put it only if its filter already was. What a
rule has was reported at its position, so this is a condition on the reports.
-/

namespace FlowerRoute

open Outcome

/-- What a rule has was reported at its position. -/
def World.Recorded (w : World) : Prop :=
  ∀ r tcr, (w.rules.cell r).haveTcr = some tcr →
    .heard ⟨(w.rules.cell r).chainNo, (w.rules.cell r).prio, some tcr⟩ ∈ w.log

section Reports

variable {g g' : Ghost} {w w' : World}

namespace World.Recorded

/-- A change of one rule that gives it no content. -/
theorem modify (recorded : w.Recorded) {r : RuleId} {f : ObjRule → ObjRule}
    (rules : w'.rules = w.rules.modify r f) (log : w.log <+: w'.log)
    (keep : ∀ rule, (f rule).chainNo = rule.chainNo ∧ (f rule).prio = rule.prio ∧
      ∀ tcr, (f rule).haveTcr = some tcr → rule.haveTcr = some tcr) : w'.Recorded := by
  intro p tcr has
  rw [rules, Heap.cell_modify] at has ⊢
  split at has
  · next here =>
    subst here
    obtain ⟨chainNo, prio, content⟩ := keep (w.rules.cell p)
    rw [if_pos rfl, chainNo, prio]
    exact log.subset (recorded p tcr (content tcr has))
  · next apart =>
    rw [if_neg apart]
    exact log.subset (recorded p tcr has)

/-- The same rules, and no less history. -/
theorem same (recorded : w.Recorded) (rules : w'.rules = w.rules) (log : w.log <+: w'.log) :
    w'.Recorded := by
  intro p tcr has
  rw [rules] at has ⊢
  exact log.subset (recorded p tcr has)

/-- A new rule that has what was reported. -/
theorem alloc (recorded : w.Recorded) {rule : ObjRule} (rules : w'.rules = w.rules.alloc rule)
    (log : w.log <+: w'.log)
    (content : ∀ tcr, rule.haveTcr = some tcr →
      .heard ⟨rule.chainNo, rule.prio, some tcr⟩ ∈ w'.log) : w'.Recorded := by
  intro p tcr has
  by_cases new : p = w.rules.next
  · subst new
    rw [rules, Heap.cell_alloc_same] at has ⊢
    exact content tcr has
  · rw [rules, Heap.cell_alloc_ne _ _ new] at has ⊢
    exact log.subset (recorded p tcr has)

end World.Recorded

/-- An effect gives a rule only what is reported. -/
theorem Effect.recorded (effect : Effect g w g' w') (recorded : w.Recorded) : w'.Recorded := by
  have log := effect.log
  cases effect with
  | @reap _ _ _ r _ _ _ reaped =>
    obtain ⟨rfl, -⟩ := objRuleReap_ok reaped
    exact recorded.modify (r := r) (f := ObjRule.reaped) (by simp [World.reaped, World.setRule]) log
      fun _ => ⟨rfl, rfl, fun _ none => by cases none⟩
  | schedule _ _ _ _ _ _ _ =>
    exact recorded.modify (w.rules_scheduled _) log fun _ => ⟨rfl, rfl, fun _ has => has⟩
  | execute _ _ _ =>
    exact recorded.modify (w.rules_executed ..) log fun _ => ⟨rfl, rfl, fun _ has => has⟩
  | adopt _ _ _ _ _ _ =>
    exact recorded.modify (w.rules_adopted ..) log fun _ => ⟨rfl, rfl, fun _ has => has⟩
  | discover _ _ inPos inLaf =>
    obtain ⟨_, pos, laf, content, -, -, -, -, rfl⟩ := objRuleNew_alloc inPos inLaf
    refine recorded.alloc rfl log fun _ has => ?_
    cases content
    cases has
    exact List.mem_append_right _ (List.mem_singleton_self _)
  | @place _ _ placed w' chainNo prio tcr _ _ place inserted =>
    obtain ⟨⟨chainTree, rfl⟩, -⟩ := returns_iff.mp (schedBasicPlace_returns tcr w) _ place
    obtain ⟨-, linked, -, rfl⟩ := objRulePosInsert_alloc (w := { w with chainTree }) inserted
    exact recorded.alloc rfl log fun _ none => by cases none
  | ref _ => exact recorded.modify (rules_setRule ..) log fun _ => ⟨rfl, rfl, fun _ has => has⟩
  | unref _ _ => exact recorded.modify (rules_setRule ..) log fun _ => ⟨rfl, rfl, fun _ has => has⟩
  | unwant _ _ _ _ _ _ _ =>
    exact recorded.modify (rules_setRule ..) log fun _ => ⟨rfl, rfl, fun _ has => has⟩
  | settle _ _ _ _ _ =>
    exact recorded.modify (rules_setRule ..) log fun _ => ⟨rfl, rfl, fun _ has => has⟩
  | confirm _ _ _ _ _ _ _ =>
    exact recorded.modify (rules_setRule ..) log fun _ => ⟨rfl, rfl, fun _ has => has⟩
  | @found _ _ r chainNo prio tcr _ _ _ chain position _ =>
    intro p other has
    rw [rules_setRule, Heap.cell_modify] at has ⊢
    split at has
    · next here =>
      subst here
      cases has
      rw [if_pos rfl]
      refine List.mem_append_right _ ?_
      rw [List.mem_singleton, World.rules_hears, chain, position]
    · next apart =>
      rw [if_neg apart]
      exact log.subset (recorded p other has)
  | vanish _ _ _ =>
    exact recorded.modify (rules_setRule ..) log fun _ => ⟨rfl, rfl, fun _ none => by cases none⟩
  | _ => exact recorded.same rfl log

/-- What holds of a run whose reports are recorded. -/
structure Reported (g : Ghost) (w : World) : Prop where
  orderly : Orderly g w
  recorded : w.Recorded

/-- Every effect keeps it. -/
theorem keeps_reported : Keeps Reported where
  sound reported := reported.orderly.sound
  kept reported effect := by
    obtain ⟨orderly, recorded⟩ := reported
    exact ⟨keeps_orderly.kept orderly effect, effect.recorded recorded⟩

/-- So does every step of `obj_rule_remove_pin`. -/
theorem unpins_reported (s : Owners) : Unpins Reported s.ghost where
  toKeeps := keeps_reported
  visit r inside reported :=
    ⟨(unpins_orderly s).visit r inside reported.orderly, reported.recorded⟩
  raise pin nonzero reported :=
    ⟨(unpins_orderly s).raise pin nonzero reported.orderly, reported.recorded⟩

/-- The first move of every event keeps it. -/
theorem carries_reported : Carries (fun _ _ => True) Reported where
  toKeeps := keeps_reported
  staticWant {s chainNo prio tcr w} reported _ search inserted := by
    refine ⟨carries_orderly.staticWant reported.orderly trivial search inserted, ?_⟩
    obtain ⟨-, linked, -, rfl⟩ := objRulePosInsert_alloc inserted
    exact World.Recorded.alloc reported.recorded rfl List.prefix_rfl fun _ none => by cases none
  request reported _ := ⟨carries_orderly.request reported.orderly trivial, reported.recorded⟩
  uninstall reported _ live := by
    refine ⟨carries_orderly.uninstall reported.orderly trivial live, ?_⟩
    exact reported.recorded.modify (rules_setRule ..) List.prefix_rfl
      fun _ => ⟨rfl, rfl, fun _ has => has⟩
  removePin {s} bound reported _ zero :=
    objRuleRemovePin_keeps (unpins_reported s) bound s.ready bound zero reported
  message reported _ := ⟨carries_orderly.message reported.orderly trivial, reported.recorded⟩
  completed reported _ completed :=
    ⟨carries_orderly.completed reported.orderly trivial completed, reported.recorded⟩
  notified reported _ here :=
    ⟨carries_orderly.notified reported.orderly trivial here, reported.recorded⟩
  foreign reported _ := ⟨carries_orderly.foreign reported.orderly trivial, reported.recorded⟩
  echoing reported _ := ⟨carries_orderly.echoing reported.orderly trivial, reported.recorded⟩

/-- What a rule has in a state of a run was reported before, at its position. -/
theorem Owners.ChainReached.recorded {strict : Prop} {s : Owners} (blank : w.Blank)
    (reached : ChainReached (fun s e => e.Fits strict s) w s) : s.world.Recorded := by
  suffices between : Between Reported s from between.kept.recorded
  induction reached with
  | start =>
    refine ⟨⟨blank.orderly, fun r tcr has => ?_⟩, .inl blank.pinChanges⟩
    rw [blank.rules] at has
    cases has
  | @step s s' e _ before allowed fits ran ih =>
    cases e with
    | rule e => exact (RuleEvent.run_keeps carries_reported allowed trivial ih _).of_ok ran
    | gotChain chainNo =>
      have orderly := (before.step allowed fits ran).stationed blank
      obtain ⟨w', got, ran⟩ := bind_returned ran
      cases ran
      obtain ⟨chainTree, rfl⟩ := returns_iff.mp (filterGotChain_returns chainNo s.world) _ got
      exact ⟨⟨orderly.kept.orderly, ih.kept.recorded⟩, orderly.pins⟩

end Reports

/-- A static rule that traps the packets of a prefix. -/
def World.Trap (w : World) (r : RuleId) : Prop :=
  w.Live r ∧ (w.rules.cell r).type = .static ∧
    ∃ tcr, (w.rules.cell r).wantTcr = some tcr ∧ tcr.type = .routeTrap

/-- A rule lies where the scheduler puts rules with a content: a ROUTE_GOTO rule in the chain of
its family, at a priority of 100 or more behind all traps of the chain; a FORWARD rule alone in a
chain from 5 on. -/
structure World.InPlace (w : World) (r : RuleId) (tcr : TcRule) : Prop where
  routeGoto : tcr.type = .routeGoto → getAfChain tcr.afAddr.af = .ok (w.rules.cell r).chainNo ∧
    100 ≤ (w.rules.cell r).prio ∧ ∀ p, w.Trap p →
      (w.rules.cell p).chainNo = (w.rules.cell r).chainNo →
      (w.rules.cell p).prio < (w.rules.cell r).prio
  forward : tcr.type = .forward → 5 ≤ (w.rules.cell r).chainNo ∧
    ∀ p, w.Live p → (w.rules.cell p).chainNo = (w.rules.cell r).chainNo → p = r

/-- A new rule will lie there: the next chain is empty, and in the chain of the family the
priorities are taken from where the search begins up to every trap, but not all behind it. -/
structure World.HasPlace (w : World) (tcr : TcRule) : Prop where
  routeGoto : tcr.type = .routeGoto → ∀ chainNo, getAfChain tcr.afAddr.af = .ok chainNo →
    ∀ p, w.Trap p → (w.rules.cell p).chainNo = chainNo → 100 ≤ (w.rules.cell p).prio →
      (∀ first, w.FirstPrio chainNo 100 first → ∀ n, first ≤ n → n < (w.rules.cell p).prio.toNat →
        n ∈ w.prios chainNo w.posTree.toList) ∧
      ∃ prio, (w.rules.cell p).prio < prio ∧ ¬ w.Taken chainNo prio
  forward : tcr.type = .forward → ∀ chainNo, w.NextChain 5 chainNo →
    ∀ p, w.Live p → (w.rules.cell p).chainNo ≠ chainNo

/-- A filter that was reported at a position, and that nobody has asked for: its rule is in the lost
and found. -/
structure World.Unclaimed (w : World) (note : Note) : Prop where
  reported : .heard note ∈ w.log
  lost : ∃ r ∈ w.lafTree.toList, (w.rules.cell r).chainNo = note.chainNo ∧
    (w.rules.cell r).prio = note.prio ∧ (w.rules.cell r).haveTcr = note.filter

/-- A rule of the lost and found that has a content stands for a reported filter. -/
theorem World.Recorded.unclaimed {w : World} (recorded : w.Recorded) {r : RuleId} {tcr : TcRule}
    (inside : r ∈ w.lafTree.toList) (has : (w.rules.cell r).haveTcr = some tcr) :
    w.Unclaimed ⟨(w.rules.cell r).chainNo, (w.rules.cell r).prio, some tcr⟩ :=
  ⟨recorded r tcr has, r, inside, rfl, rfl, has⟩

/-- What a request needs so that its rule lies where the scheduler puts such rules: every filter
that was reported with its content, and that nobody has asked for, was reported behind all traps of
the chain of its family, or in a chain from 5 on with one rule; and there is a place for a new rule,
unless the lost and found, in order, has such a filter. -/
structure World.Suits (w : World) (tcr : TcRule) : Prop where
  routeGoto : tcr.type = .routeGoto → ∀ note, w.Unclaimed note → note.filter = some tcr →
    getAfChain tcr.afAddr.af = .ok note.chainNo ∧ 100 ≤ note.prio ∧
    ∀ p, w.Trap p → (w.rules.cell p).chainNo = note.chainNo → (w.rules.cell p).prio < note.prio
  forward : tcr.type = .forward → ∀ note, w.Unclaimed note → note.filter = some tcr →
    5 ≤ note.chainNo ∧ ∀ p q, w.Live p → w.Live q → (w.rules.cell p).chainNo = note.chainNo →
      (w.rules.cell q).chainNo = note.chainNo → p = q
  placed : (w.LafOrdered → ∀ note, w.Unclaimed note → note.filter ≠ some tcr) → w.HasPlace tcr

section Requests

variable {g : Ghost} {w w' : World} {r : RuleId} {tcr : TcRule}

/-- A new rule that wants a content, at a position. -/
structure ObjRule.New (tcr : TcRule) (chainNo : UInt32) (prio : UInt16) (rule : ObjRule) : Prop where
  kind : rule.obj.kind = .rule
  type : rule.type ≠ .static
  want : rule.wantTcr = some tcr
  chainNo : rule.chainNo = chainNo
  prio : rule.prio = prio

/-- What `obj_rule_prime_request` does: it adopts the rule that was found, or it places one. -/
theorem objRulePrimeRequest_ok (requested : objRulePrimeRequest tcr w = .ok (some r, w')) :
    (objRuleLafLookup tcr w = .ok (some r) ∧ w.Live r ∧ (w.rules.cell r).wantTcr = none ∧
      w' = w.adopted r tcr) ∨
    objRuleLafLookup tcr w = .ok none ∧ r = w.rules.next ∧ ∃ chainNo prio placed rule,
      schedBasicPlace tcr w = .ok (some (chainNo, prio), placed) ∧ rule.New tcr chainNo prio ∧
        w'.rules = w.rules.alloc rule := by
  rw [objRulePrimeRequest] at requested
  obtain ⟨found, search, requested⟩ := bind_returned requested
  cases found with
  | some p =>
    obtain ⟨w₁, counted, requested⟩ := bind_returned requested
    obtain ⟨live, rfl⟩ := objRuleRef_ok counted
    obtain ⟨rule, followed, requested⟩ := bind_returned requested
    obtain ⟨-, rfl⟩ := rule_ok followed
    rw [cell_setRule] at requested
    obtain ⟨_, -, requested⟩ := bind_returned requested
    obtain ⟨_, unwanted, requested⟩ := bind_returned requested
    obtain ⟨_, -, requested⟩ := bind_returned requested
    obtain ⟨w₂, counted, requested⟩ := bind_returned requested
    obtain ⟨-, rfl⟩ := objRuleRef_ok counted
    cases requested
    refine .inl ⟨search, live, of_require unwanted, ?_⟩
    simp [World.adopted, World.setRule]
  | none =>
    obtain ⟨⟨ret, placed⟩, place, requested⟩ := bind_returned requested
    obtain ⟨⟨chainTree, changed⟩, -⟩ := returns_iff.mp (schedBasicPlace_returns tcr w) _ place
    cases ret with
    | none => cases requested
    | some position =>
      obtain ⟨chainNo, prio⟩ := position
      dsimp only at changed requested
      subst changed
      obtain ⟨w₁, counted, requested⟩ := bind_returned requested
      obtain ⟨-, rfl⟩ := objRuleRef_ok counted
      obtain ⟨w₂, inserted, requested⟩ := bind_returned requested
      cases requested
      have counted : ((objRuleAlloc { chainNo, prio, wantTcr := some tcr }
          { w with chainTree }).2.setRule w.rules.next fun rule =>
            { rule with obj := objRef rule.obj }) = (objRuleAlloc {
          chainNo, prio, wantTcr := some tcr, obj := { refcnt := 1 } } { w with chainTree }).2 := by
        simp [objRuleAlloc, World.setRule, objRef]
      have inserted : objRulePosInsert w.rules.next (objRuleAlloc {
          chainNo, prio, wantTcr := some tcr, obj := { refcnt := 1 } } { w with chainTree }).2 =
          .ok w' := counted ▸ inserted
      obtain ⟨-, linked, -, rfl⟩ := objRulePosInsert_alloc (w := { w with chainTree }) inserted
      refine .inr ⟨search, rfl, chainNo, prio, _, _, place, ?_, rfl⟩
      exact ⟨rfl, by simp, rfl, rfl, rfl⟩

/-- A new rule is behind all traps of its chain exactly when the priorities up to each are taken
from where the search begins, but not all behind it. -/
theorem World.HasPlace.prio_iff (positioned : Positioned False g w) {chainNo : UInt32}
    {prio : UInt16} (found : objRuleFindAvailablePrio chainNo 100 w = .ok prio)
    (least : 100 ≤ prio) (type : tcr.type = .routeGoto)
    (chain : getAfChain tcr.afAddr.af = .ok chainNo) :
    w.HasPlace tcr ↔
      ∀ p, w.Trap p → (w.rules.cell p).chainNo = chainNo → (w.rules.cell p).prio < prio := by
  obtain ⟨first, begins, result⟩ := objRuleFindAvailablePrio_first positioned.placed found
  -- a trap is in the tree, so the search begins before it
  have inside : ∀ p, w.Trap p → (w.rules.cell p).chainNo = chainNo →
      (w.rules.cell p).prio.toNat ∈ w.prios chainNo w.posTree.toList := fun p trap here =>
    mem_prios.mpr ⟨p, positioned.inside p trap.1 (.inr trap.2.1), here, rfl⟩
  have before : ∀ p, w.Trap p → (w.rules.cell p).chainNo = chainNo → 100 ≤ (w.rules.cell p).prio →
      first ≤ (w.rules.cell p).prio.toNat := fun p trap here high => by
    rcases begins with ⟨-, rfl⟩ | ⟨-, lowest⟩
    · exact UInt16.le_iff_toNat_le.mp high
    · exact lowest.2 ⟨inside p trap here, UInt16.le_iff_toNat_le.mp high⟩
  constructor
  · rintro ⟨routeGoto, -⟩ p trap here
    by_cases high : 100 ≤ (w.rules.cell p).prio
    · obtain ⟨taken, later, behind, free⟩ := routeGoto type chainNo chain p trap here high
      have start := before p trap here high
      rw [UInt16.lt_iff_toNat_lt]
      rcases result with ⟨⟨after, missing⟩, -⟩ | ⟨-, full⟩
      · by_contra beyond
        by_cases same : prio.toNat = (w.rules.cell p).prio.toNat
        · exact missing (same ▸ inside p trap here)
        · exact missing (taken first begins _ after (by omega))
      · have := UInt16.lt_iff_toNat_lt.mp behind
        exact absurd (mem_prios.mp (full later.toNat (by omega) later.toNat_lt)) free
    · exact UInt16.lt_of_lt_of_le (UInt16.not_le.mp high) least
  · intro behind
    refine ⟨fun _ other chain' p trap here high => ?_, fun forward => ?_⟩
    · rw [chain] at chain'
      cases chain'
      have less := UInt16.lt_iff_toNat_lt.mp (behind p trap here)
      have high' := UInt16.le_iff_toNat_le.mp high
      rcases result with ⟨⟨after, missing⟩, lowest⟩ | ⟨same, -⟩
      · refine ⟨fun first' begins' n low high => ?_, prio, behind p trap here, fun taken => ?_⟩
        · rw [begins'.unique begins] at low
          by_contra free
          have := lowest ⟨low, free⟩
          omega
        · exact missing (mem_prios.mpr taken)
      · rw [same] at less
        omega
    · rw [type] at forward
      cases forward

/-- An adopted rule lies where it was found. -/
theorem World.inPlace_adopted (live : w.Live r) (unwanted : (w.rules.cell r).wantTcr = none)
    (type : tcr.type = .routeGoto ∨ tcr.type = .forward) :
    (w.adopted r tcr).InPlace r tcr ↔ w.InPlace r tcr := by
  have same := SamePositions.modify (w.rules_adopted r tcr) (fun _ => ⟨rfl, rfl, rfl, rfl⟩) live
    (by rw [kind_objRef, kind_objRef]; exact live) rfl rfl
  have trap : ∀ p, (w.adopted r tcr).Trap p ↔ w.Trap p := fun p => by
    rw [Trap, Trap, same.live, (same.place p).2.2.2, w.rules_adopted, Heap.cell_modify]
    split
    · next here =>
      -- neither before nor after does the rule want to trap
      subst here
      rw [unwanted]
      constructor
      · rintro ⟨-, -, want, wanted, trap⟩
        cases wanted
        rw [trap] at type
        rcases type with type | type <;> cases type
      · rintro ⟨-, -, want, wanted, -⟩
        cases wanted
    · rfl
  constructor
  · rintro ⟨routeGoto, forward⟩
    simp only [trap, same.live, fun p => (same.place p).1, fun p => (same.place p).2.1]
      at routeGoto forward
    exact ⟨routeGoto, forward⟩
  · rintro ⟨routeGoto, forward⟩
    constructor
    · simp only [trap, fun p => (same.place p).1, fun p => (same.place p).2.1]
      exact routeGoto
    · simp only [same.live, fun p => (same.place p).1]
      exact forward

/-- A placed rule lies where such rules are put exactly when there is a place. -/
theorem World.inPlace_placed (positioned : Positioned False g w)
    (bound : ∀ p, w.Live p → p < w.rules.next) (type : tcr.type = .routeGoto ∨ tcr.type = .forward)
    {chainNo : UInt32} {prio : UInt16} {placed : World} {rule : ObjRule}
    (place : schedBasicPlace tcr w = .ok (some (chainNo, prio), placed))
    (new : rule.New tcr chainNo prio) (rules : w'.rules = w.rules.alloc rule) :
    w'.InPlace w.rules.next tcr ↔ w.HasPlace tcr := by
  have own : w'.rules.cell w.rules.next = rule := by rw [rules, Heap.cell_alloc_same]
  have old : ∀ p, w.Live p → p ≠ w.rules.next ∧ w'.rules.cell p = w.rules.cell p := fun p live => by
    have apart := Nat.ne_of_lt (bound p live)
    exact ⟨apart, by rw [rules, Heap.cell_alloc_ne _ _ apart]⟩
  have live : ∀ p, w'.Live p ↔ p = w.rules.next ∨ w.Live p := fun p => by
    by_cases same : p = w.rules.next
    · subst same
      rw [Live, own]
      exact ⟨fun _ => .inl rfl, fun _ => new.kind⟩
    · rw [Live, Live, rules, Heap.cell_alloc_ne _ _ same]
      exact ⟨.inr, fun here => here.resolve_left same⟩
  have trap : ∀ p, w'.Trap p ↔ w.Trap p := fun p => by
    by_cases same : p = w.rules.next
    · subst same
      rw [Trap, own]
      exact ⟨fun here => absurd here.2.1 new.type,
        fun here => absurd (bound _ here.1) (Nat.lt_irrefl _)⟩
    · rw [Trap, Trap, Live, Live, rules, Heap.cell_alloc_ne _ _ same]
  rw [schedBasicPlace] at place
  split at place
  · next forward =>
    obtain ⟨ret, chainTree, found, next, -⟩ :=
      positioned.chained.findAvailable (show Small 5 by decide)
    rw [found, ok_bind] at place
    cases place
    constructor
    · rintro ⟨-, alone⟩
      refine ⟨fun goto => (by cases forward.symm.trans goto), fun _ other next' p here chain => ?_⟩
      have same := (alone forward).2 p ((live p).mpr (.inr here)) (by
        rw [own, new.chainNo, (old p here).2, chain, next'.unique next])
      exact (old p here).1 same
    · rintro ⟨-, empty⟩
      refine ⟨fun goto => (by cases forward.symm.trans goto), fun _ => ⟨?_, fun p here chain => ?_⟩⟩
      · rw [own, new.chainNo]
        exact next.free.1
      · rcases (live p).mp here with same | here
        · exact same
        · rw [own, new.chainNo, (old p here).2] at chain
          exact absurd chain (empty forward _ next p here)
  · next goto =>
    obtain ⟨afChain, chain, place⟩ := bind_returned place
    obtain ⟨found, search, place⟩ := bind_returned place
    obtain ⟨_, least, place⟩ := bind_returned place
    cases place
    rw [HasPlace.prio_iff positioned search (of_require least) goto chain]
    constructor
    · rintro ⟨inPlace, -⟩ p here same
      have behind := (inPlace goto).2.2 p ((trap p).mpr here)
      rw [own, new.chainNo, new.prio, (old p here.1).2] at behind
      exact behind same
    · intro behind
      refine ⟨fun _ => ?_, fun forward => by cases goto.symm.trans forward⟩
      rw [own, new.chainNo, new.prio]
      refine ⟨chain, of_require least, fun p here same => ?_⟩
      have here := (trap p).mp here
      rw [(old p here.1).2] at same ⊢
      exact behind p here same
  · next forward goto =>
    rcases type with type | type
    · exact absurd type goto
    · exact absurd type forward

/-- What the lost and found returns is in it, with the content that was looked for. -/
theorem objRuleLafLookup_reported (search : objRuleLafLookup tcr w = .ok (some r)) :
    r ∈ w.lafTree.toList ∧ (w.rules.cell r).haveTcr = some tcr := by
  obtain ⟨inside, equal⟩ := SearchTree.find_some search
  obtain ⟨rule, followed, equal⟩ := bind_returned equal
  obtain ⟨-, rfl⟩ := rule_ok followed
  cases has : (w.rules.cell r).haveTcr with
  | none =>
    rw [has] at equal
    cases equal
  | some have' =>
    rw [has] at equal
    rw [TcRule.memcmp_eq_zero.mp (Except.ok.inj equal)]
    exact ⟨inside, rfl⟩

end Requests

/-- In every run in which the numbers of chains do not overflow, the rule that
`obj_rule_prime_request` returns lies where the scheduler could have put it if every filter with
its content that may be adopted does and, without one, a new rule finds its place; and, where the
lost and found is in order, only if so. -/
theorem prime_request_in_place {w : World} (blank : w.Blank) {s : Owners}
    (reached : Owners.ChainReached (fun s e => e.Fits False s) w s) {tcr : TcRule} {r : RuleId}
    {w' : World} (type : tcr.type = .routeGoto ∨ tcr.type = .forward)
    (requested : objRulePrimeRequest tcr s.world = .ok (some r, w')) :
    (s.world.Suits tcr → w'.InPlace r tcr) ∧
    (s.world.LafOrdered → w'.InPlace r tcr → s.world.Suits tcr) := by
  obtain ⟨⟨orderly, positioned⟩, -⟩ := reached.stationed blank
  have recorded := reached.recorded blank
  have bound : ∀ p, s.world.Live p → p < s.world.rules.next := fun p live =>
    (orderly.sound.counts.alive p live).2
  rcases objRulePrimeRequest_ok requested with ⟨search, live, unwanted, rfl⟩ |
    ⟨search, rfl, chainNo, prio, placed, rule, place, new, rules⟩
  · obtain ⟨inside, has⟩ := objRuleLafLookup_reported search
    have unclaimed := recorded.unclaimed inside has
    rw [World.inPlace_adopted live unwanted type]
    constructor
    · intro suits
      refine ⟨fun goto => suits.routeGoto goto _ unclaimed rfl, fun forward => ?_⟩
      obtain ⟨high, alone⟩ := suits.forward forward _ unclaimed rfl
      exact ⟨high, fun p here same => alone p r here live same rfl⟩
    · intro index inPlace
      -- no other filter has the content
      have only : ∀ note, s.world.Unclaimed note → note.filter = some tcr →
          note = ⟨(s.world.rules.cell r).chainNo, (s.world.rules.cell r).prio, some tcr⟩ := by
        rintro ⟨chainNo, prio, filter⟩ ⟨-, p, inside', rfl, rfl, has'⟩ content
        rw [index.unique inside inside' has (has'.trans content)]
        exact congrArg _ content
      refine ⟨fun goto note lost content => ?_, fun forward note lost content => ?_,
        fun missing => ?_⟩
      · rw [only note lost content]
        exact inPlace.routeGoto goto
      · rw [only note lost content]
        obtain ⟨high, alone⟩ := inPlace.forward forward
        exact ⟨high, fun p q here there same same' =>
          (alone p here same).trans (alone q there same').symm⟩
      · exact absurd rfl (missing index _ unclaimed)
  · rw [World.inPlace_placed positioned bound type place new rules]
    have missing : s.world.LafOrdered → ∀ note, s.world.Unclaimed note →
        note.filter ≠ some tcr := fun index note lost content => by
      obtain ⟨p, inside, -, -, has⟩ := lost.lost
      have found := index.lookup.mpr ⟨inside, has.trans content⟩
      rw [search] at found
      cases found
    refine ⟨fun suits => suits.placed missing, fun index hasPlace => ?_⟩
    exact ⟨fun _ note lost content => absurd content (missing index note lost),
      fun _ note lost content => absurd content (missing index note lost), fun _ => hasPlace⟩

/-- A ROUTE_GOTO rule for 192.0.2.0/24 as `obj_route_prepare_rule` makes it. -/
def gotoRule24 : TcRule where
  type := .routeGoto
  traits := typeTraits .routeGoto
  afAddr := ⟨afInet, 24, (0xc0000200 : BitVec 32) ++ (0 : BitVec 96), 0⟩
  gotoTarget := 5

/-- A trap for 198.51.100.0/24. -/
def trapRule24 : TcRule where
  type := .routeTrap
  traits := typeTraits .routeTrap
  afAddr := ⟨afInet, 24, (0xc6336400 : BitVec 32) ++ (0 : BitVec 96), 0⟩

/-- A ROUTE_GOTO rule is placed behind a trap at priority 100; a filter with its content that was
found at priority 101 is adopted there. -/
theorem prime_request_in_place_behind_trap : (∃ s r w',
    Owners.chainPlay 9 [.rule (.staticWant 1 100 trapRule24)] { world := blankWorld } = .ok s ∧
      objRulePrimeRequest gotoRule24 s.world = .ok (some r, w') ∧ w'.InPlace r gotoRule24) ∧
    ∃ s r w',
    Owners.chainPlay 9 [.rule (.staticWant 1 100 trapRule24),
      .rule (.message rtmNewtfilter 1 101 gotoRule24)] { world := blankWorld } = .ok s ∧
      objRulePrimeRequest gotoRule24 s.world = .ok (some r, w') ∧ w'.InPlace r gotoRule24 ∧
      (w'.rules.cell r).prio = 101 := by
  have small : (1 : UInt32).toNat < 2 ^ 28 := by decide
  refine ⟨?_, ?_⟩
  · obtain ⟨s, played, next, tree, prio, lost, r, w', requested⟩ : ∃ s,
        Owners.chainPlay 9 [.rule (.staticWant 1 100 trapRule24)] { world := blankWorld } = .ok s ∧
        s.world.rules.next = 1 ∧ s.world.posTree.toList = [0] ∧
        (s.world.rules.cell 0).prio = 100 ∧ s.world.lafTree.toList = [] ∧
        ∃ r w', objRulePrimeRequest gotoRule24 s.world = .ok (some r, w') :=
      ⟨_, rfl, rfl, rfl, rfl, rfl, _, _, rfl⟩
    have reached : Owners.ChainReached (fun s e => e.Fits False s) blankWorld s := by
      refine Owners.chainPlay_reached .start (fun s e inside => ?_) played
      rw [List.mem_singleton.mp inside]
      exact small
    obtain ⟨⟨orderly, -⟩, -⟩ := reached.stationed blankWorld_blank
    refine ⟨s, r, w', played, requested, ?_⟩
    refine (prime_request_in_place blankWorld_blank reached (.inl rfl) requested).1
      ⟨fun _ note unclaimed => ?_, fun type => (by cases type),
        fun _ => ⟨fun _ chainNo _ p trap _ _ => ?_, fun type => by cases type⟩⟩
    · obtain ⟨p, inside, -⟩ := unclaimed.lost
      rw [lost] at inside
      cases inside
    · have first : p < 1 := next ▸ (orderly.sound.counts.alive p trap.1).2
      rw [Nat.lt_one_iff.mp first, prio]
      refine ⟨fun first begins n low high => ?_, 101, by decide, ?_⟩
      · have := begins.le
        exact absurd high (by simp at this ⊢; omega)
      · rintro ⟨q, inside, -, position⟩
        rw [tree] at inside
        rw [List.mem_singleton.mp inside, prio] at position
        exact absurd position (by decide)
  · obtain ⟨s, played, next, trap, chainNo, prio, lost, live, has, r, w', requested, adopted⟩ :
        ∃ s, Owners.chainPlay 9 [.rule (.staticWant 1 100 trapRule24),
          .rule (.message rtmNewtfilter 1 101 gotoRule24)] { world := blankWorld } = .ok s ∧
        s.world.rules.next = 2 ∧ (s.world.rules.cell 0).prio = 100 ∧
        (s.world.rules.cell 1).chainNo = 1 ∧ (s.world.rules.cell 1).prio = 101 ∧
        s.world.lafTree.toList = [1] ∧ s.world.Live 1 ∧
        (s.world.rules.cell 1).haveTcr = some gotoRule24 ∧
        ∃ r w', objRulePrimeRequest gotoRule24 s.world = .ok (some r, w') ∧
          (w'.rules.cell r).prio = 101 :=
      ⟨_, rfl, rfl, rfl, rfl, rfl, rfl, rfl, rfl, _, _, rfl, rfl⟩
    have reached : Owners.ChainReached (fun s e => e.Fits False s) blankWorld s := by
      refine Owners.chainPlay_reached .start (fun s e inside => ?_) played
      rcases List.mem_cons.mp inside with rfl | inside
      · exact small
      · rw [List.mem_singleton.mp inside]
        exact small
    obtain ⟨⟨orderly, -⟩, -⟩ := reached.stationed blankWorld_blank
    have index : s.world.LafOrdered := by
      refine ⟨fun p inside => ?_, by rw [lost]; exact List.pairwise_singleton _ _⟩
      rw [lost] at inside
      rw [List.mem_singleton.mp inside, has]
      exact ⟨live, Option.some_ne_none _⟩
    refine ⟨s, r, w', played, requested, ?_, adopted⟩
    refine (prime_request_in_place blankWorld_blank reached (.inl rfl) requested).1
      ⟨fun _ note unclaimed _ => ?_, fun type => (by cases type), fun missing => ?_⟩
    · obtain ⟨p, inside, chain, position, -⟩ := unclaimed.lost
      rw [lost] at inside
      rw [List.mem_singleton.mp inside] at chain position
      rw [← chain, ← position, chainNo, prio]
      refine ⟨rfl, by decide, fun q static _ => ?_⟩
      have two : q < 2 := next ▸ (orderly.sound.counts.alive q static.1).2
      have first : q = 0 := by
        by_contra other
        -- the found rule wants nothing
        have second : q = 1 := Nat.le_antisymm (Nat.le_of_lt_succ two) (Nat.pos_of_ne_zero other)
        obtain ⟨tcr, wanted, -⟩ := static.2.2
        have unwanted := (orderly.sound.lost.unwanted q (by rw [lost, second]; simp)).2
        rw [unwanted] at wanted
        cases wanted
      rw [first, trap]
      decide
    · have unclaimed := (reached.recorded blankWorld_blank).unclaimed
        (show 1 ∈ s.world.lafTree.toList by rw [lost]; simp) has
      exact absurd rfl (missing index _ unclaimed)

/-- A filter with the content of a ROUTE_GOTO rule is found at priority 5 and adopted there. -/
theorem prime_request_in_place_fails : ∃ s w',
    Owners.chainPlay 9 [.rule (.message rtmNewtfilter 1 5 gotoRule24)] { world := blankWorld } =
      .ok s ∧ objRulePrimeRequest gotoRule24 s.world = .ok (some 0, w') ∧
    ¬ w'.InPlace 0 gotoRule24 := by
  refine ⟨_, _, rfl, rfl, fun inPlace => ?_⟩
  exact absurd (inPlace.routeGoto rfl).2.1 (by decide)

end FlowerRoute
