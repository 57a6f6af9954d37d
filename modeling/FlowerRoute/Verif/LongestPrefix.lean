import FlowerRoute.Lib.FirstMatch
import FlowerRoute.Verif.PositionRuns

/-!
# The order of the goto rules of a chain

The filters of an address family's chain are tried by priority, and a priority is chosen by a
search for a free one. What every request for a ROUTE_GOTO rule has to find, so that the first
filter that matches an address is one with a longest prefix, in every state of a run.
-/

namespace FlowerRoute

open Outcome

/-- An address has the prefix. -/
def AfAddr.Covers (pfx : AfAddr) (addr : SomeInAddr) : Prop :=
  pfx.addr >>> (128 - pfx.maskLen.toNat) = addr >>> (128 - pfx.maskLen.toNat)

instance (pfx : AfAddr) (addr : SomeInAddr) : Decidable (pfx.Covers addr) :=
  inferInstanceAs (Decidable (_ = _))

/-- The rule is a ROUTE_GOTO rule of the chain's address family. -/
def TcRule.Routes (tcr : TcRule) (chainNo : UInt32) : Prop :=
  tcr.type = .routeGoto ∧ getAfChain tcr.afAddr.af = .ok chainNo

/-- Rules at priorities, as the hardware tries them. -/
def byPrio : FirstMatch.Reading (UInt16 × TcRule) SomeInAddr Nat where
  rank e := e.1.toNat
  covers e addr := e.2.afAddr.Covers addr
  length e := e.2.afAddr.maskLen.toNat

/-- A rule is at a position, or may come to it without another request. -/
inductive World.Bears (w : World) (chainNo : UInt32) (prio : UInt16) (tcr : TcRule) : Prop
  | filter : w.kernel.filters chainNo prio = some tcr → Bears w chainNo prio tcr
  | noted : ⟨chainNo, prio, some tcr⟩ ∈ w.kernel.notes → Bears w chainNo prio tcr
  | waits (tca : TcAction) : tca ∈ w.waiting → tca.chainNo = chainNo → tca.prio = prio →
      tca.tcr = some tcr → Bears w chainNo prio tcr
  | rule (r : RuleId) : w.Live r → (w.rules.cell r).chainNo = chainNo →
      (w.rules.cell r).prio = prio →
      (w.rules.cell r).wantTcr = some tcr ∨ (w.rules.cell r).haveTcr = some tcr →
      Bears w chainNo prio tcr

/-- The same while functions are under way: the report that one of them goes on with counts. -/
def Ghost.Bears (g : Ghost) (w : World) (chainNo : UInt32) (prio : UInt16) (tcr : TcRule) : Prop :=
  w.Bears chainNo prio tcr ∨ g.task = some (.report ⟨chainNo, prio, some tcr⟩)

/-- The ROUTE_GOTO rules of a chain, with their priorities. -/
def Ghost.gotos (g : Ghost) (w : World) (chainNo : UInt32) : Set (UInt16 × TcRule) :=
  { e | e.2.Routes chainNo ∧ g.Bears w chainNo e.1 e.2 }

/-- The same between two events. -/
def World.gotos (w : World) (chainNo : UInt32) : Set (UInt16 × TcRule) :=
  { e | e.2.Routes chainNo ∧ w.Bears chainNo e.1 e.2 }

/-- The first priority that is free from where the search for one begins. -/
def World.NextPrio (w : World) (chainNo : UInt32) (minPrio prio : UInt16) : Prop :=
  ∃ first, w.FirstPrio chainNo minPrio first ∧
    IsLeast { n | first ≤ n ∧ n ∉ w.prios chainNo w.posTree.toList } prio.toNat

/-- A priority is free for a ROUTE_GOTO rule, and the first free one lies before the shorter and
behind the longer prefixes of the chain that share an address with it. -/
def World.Ranks (w : World) (tcr : TcRule) : Prop :=
  ∀ chainNo, tcr.Routes chainNo →
    ∃ prio, w.NextPrio chainNo 100 prio ∧ byPrio.Fits (w.gotos chainNo) (prio, tcr)

/-- Of ROUTE_GOTO rules that share an address the one with the longer prefix comes first. -/
structure Ranked (g : Ghost) (w : World) : Prop where
  ordered : ∀ chainNo, byPrio.LongestFirst (g.gotos w chainNo)
  requested : ∀ tcr, g.task = some (.request tcr) → objRuleLafLookup tcr w = .ok none →
    w.Ranks tcr

section Preservation

variable {g g' : Ghost} {w w' : World}

/-- Only one priority is the next. -/
theorem World.NextPrio.unique {chainNo : UInt32} {minPrio prio prio' : UInt16}
    (here : w.NextPrio chainNo minPrio prio) (there : w.NextPrio chainNo minPrio prio') :
    prio = prio' := by
  obtain ⟨first, begins, least⟩ := here
  obtain ⟨first', begins', least'⟩ := there
  cases begins.unique begins'
  exact UInt16.toNat_inj.mp (least.unique least')

/-- The search returns the next priority, if there is one. -/
theorem World.NextPrio.found {chainNo : UInt32} {minPrio prio prio' : UInt16} (placed : Placed w)
    (next : w.NextPrio chainNo minPrio prio)
    (ran : objRuleFindAvailablePrio chainNo minPrio w = .ok prio') : prio' = prio := by
  obtain ⟨first, begins, least⟩ := next
  obtain ⟨first', begins', result⟩ := objRuleFindAvailablePrio_first placed ran
  cases begins.unique begins'
  rcases result with least' | ⟨-, full⟩
  · exact UInt16.toNat_inj.mp (least'.unique least)
  · exact absurd (full _ least.1.1 prio.toNat_lt) least.1.2

/-- Nothing is at a position, or may come to it, that was not and could not before. -/
structure Within (g : Ghost) (w : World) (g' : Ghost) (w' : World) : Prop where
  filters : ∀ chainNo prio tcr, tcr.Routes chainNo →
    w'.kernel.filters chainNo prio = some tcr → g.Bears w chainNo prio tcr
  notes : ∀ chainNo prio tcr, tcr.Routes chainNo →
    ⟨chainNo, prio, some tcr⟩ ∈ w'.kernel.notes → g.Bears w chainNo prio tcr
  waits : ∀ tca ∈ w'.waiting, ∀ tcr, tcr.Routes tca.chainNo → tca.tcr = some tcr →
    g.Bears w tca.chainNo tca.prio tcr
  rules : ∀ r, w'.Live r → ∀ tcr, tcr.Routes (w'.rules.cell r).chainNo →
    (w'.rules.cell r).wantTcr = some tcr ∨ (w'.rules.cell r).haveTcr = some tcr →
    g.Bears w (w'.rules.cell r).chainNo (w'.rules.cell r).prio tcr
  reported : ∀ chainNo prio tcr, tcr.Routes chainNo →
    g'.task = some (.report ⟨chainNo, prio, some tcr⟩) → g.Bears w chainNo prio tcr

namespace Within

/-- The ROUTE_GOTO rules of a chain become fewer. -/
theorem gotos (within : Within g w g' w') (chainNo : UInt32) :
    g'.gotos w' chainNo ⊆ g.gotos w chainNo := by
  rintro ⟨prio, tcr⟩ ⟨routes, bears | task⟩
  · refine ⟨routes, ?_⟩
    cases bears with
    | filter here => exact within.filters _ _ _ routes here
    | noted member => exact within.notes _ _ _ routes member
    | waits tca member chain position content =>
      subst chain position
      exact within.waits tca member tcr routes content
    | rule r live chain position content =>
      subst chain position
      exact within.rules r live tcr routes content
  · exact ⟨routes, within.reported _ _ _ routes task⟩

/-- A change of one rule that keeps its position. -/
theorem modify {r : RuleId} {f : ObjRule → ObjRule} (rules : w'.rules = w.rules.modify r f)
    (place : ∀ rule, (f rule).chainNo = rule.chainNo ∧ (f rule).prio = rule.prio)
    (live : w.Live r) (content : ∀ tcr, (f (w.rules.cell r)).wantTcr = some tcr ∨
      (f (w.rules.cell r)).haveTcr = some tcr →
      g.Bears w (w.rules.cell r).chainNo (w.rules.cell r).prio tcr)
    (kernel : w'.kernel = w.kernel)
    (waits : ∀ tca ∈ w'.waiting, tca ∈ w.waiting ∨
      ∀ tcr, tca.tcr = some tcr → g.Bears w tca.chainNo tca.prio tcr)
    (reported : ∀ note, g'.task = some (.report note) → g.task = some (.report note)) :
    Within g w g' w' where
  filters chainNo prio tcr _ here := .inl (.filter (kernel ▸ here))
  notes chainNo prio tcr _ member := .inl (.noted (kernel ▸ member))
  waits tca member tcr _ content := by
    rcases waits tca member with before | new
    · exact .inl (.waits tca before rfl rfl content)
    · exact new tcr content
  rules p here tcr _ has := by
    by_cases same : p = r
    · subst same
      rw [rules, Heap.cell_modify_same] at has ⊢
      rw [(place _).1, (place _).2]
      exact content tcr has
    · rw [World.Live, rules, Heap.cell_modify_ne _ _ same] at here
      rw [rules, Heap.cell_modify_ne _ _ same] at has ⊢
      exact .inl (.rule p here rfl rfl has)
  reported chainNo prio tcr _ task := .inr (reported _ task)

/-- A write that takes something away at most. -/
theorem write {r : RuleId} {f : ObjRule → ObjRule}
    (place : ∀ rule, (f rule).chainNo = rule.chainNo ∧ (f rule).prio = rule.prio)
    (content : ∀ rule tcr, (f rule).wantTcr = some tcr ∨ (f rule).haveTcr = some tcr →
      rule.wantTcr = some tcr ∨ rule.haveTcr = some tcr) (live : w.Live r)
    (reported : ∀ note, g'.task = some (.report note) → g.task = some (.report note)) :
    Within g w g' (w.setRule r f) :=
  .modify (rules_setRule w r f) place live
    (fun tcr has => .inl (.rule r live rfl rfl (content _ tcr has))) rfl (fun _ => .inl) reported

/-- Nothing changes but what is done next. -/
theorem keep (rules : w'.rules = w.rules) (kernel : w'.kernel = w.kernel)
    (waits : w'.waiting = w.waiting)
    (reported : ∀ note, g'.task = some (.report note) → g.task = some (.report note)) :
    Within g w g' w' where
  filters chainNo prio tcr _ here := .inl (.filter (kernel ▸ here))
  notes chainNo prio tcr _ member := .inl (.noted (kernel ▸ member))
  waits tca member tcr _ content := .inl (.waits tca (waits ▸ member) rfl rfl content)
  rules r live tcr _ has := by
    rw [World.Live, rules] at live
    rw [rules] at has ⊢
    exact .inl (.rule r live rfl rfl has)
  reported chainNo prio tcr _ task := .inr (reported _ task)

/-- An action is executed, and its report is on its way. -/
theorem execute {tca : TcAction} {queue : Queue TcAction}
    (started : w.queue.queueProcess = .ok (tca, queue)) :
    Within g w (((g.run g.routesUnderWay).lend tca.data).next (w.echo tca))
      (w.executed tca queue) := by
  have order := waiting_queueProcess started
  have waiting : (w.executed tca queue).waiting = { w with queue }.waiting := by
    simp only [World.executed, World.waiting]
    split <;> rfl
  have borne : ∀ tcr, tca.tcr = some tcr → g.Bears w tca.chainNo tca.prio tcr := fun tcr content =>
    .inl (.waits tca (order ▸ List.mem_cons_self) rfl rfl content)
  have filters : (w.executed tca queue).kernel.filters = (w.answer tca).1.filters := by
    simp only [World.executed]
    split <;> rfl
  have answered : ∀ note ∈ (w.answer tca).2, note = ⟨tca.chainNo, tca.prio, tca.tcr⟩ := by
    intro note member
    simp only [World.answer, Kernel.request] at member
    split at member
    · exact absurd member List.not_mem_nil
    · exact List.mem_singleton.mp member
  constructor
  · intro chainNo prio tcr _ here
    rw [filters] at here
    simp only [World.answer, Kernel.request] at here
    split at here
    · exact .inl (.filter here)
    · dsimp only at here
      split at here
      · next same =>
        rw [same.1, same.2]
        exact borne tcr here
      · exact .inl (.filter here)
  · intro chainNo prio tcr _ member
    have kept : (w.answer tca).1.notes = w.kernel.notes := (w.answer_chainNo tca).1
    simp only [World.executed] at member
    split at member
    · rw [kept] at member
      exact .inl (.noted member)
    · rcases List.mem_append.mp member with before | new
      · rw [kept] at before
        exact .inl (.noted before)
      · have same := answered _ new
        simp only [Note.mk.injEq] at same
        obtain ⟨rfl, rfl, content⟩ := same
        exact borne tcr content.symm
  · intro other member tcr _ content
    rw [waiting] at member
    exact .inl (.waits other (order ▸ List.mem_cons_of_mem _ member) rfl rfl content)
  · intro p here tcr _ has
    have kept := fun (β : Type) (field : ObjRule → β)
        (same : ∀ rule, field { rule with state := .pending } = field rule) =>
      Heap.cell_modify_field w.rules tca.data p field same
    rw [World.Live, w.rules_executed, kept _ (·.obj.kind) fun _ => rfl] at here
    rw [w.rules_executed, kept _ ObjRule.wantTcr fun _ => rfl,
      kept _ ObjRule.haveTcr fun _ => rfl] at has
    rw [w.rules_executed, kept _ ObjRule.chainNo fun _ => rfl, kept _ ObjRule.prio fun _ => rfl]
    exact .inl (.rule p here rfl rfl has)
  · intro chainNo prio tcr _ task
    rw [Ghost.next_task, World.echo] at task
    split at task
    · obtain ⟨note, first, same⟩ := Option.map_eq_some_iff.mp task
      have here := answered note (List.mem_of_mem_head? first)
      rw [Task.report.injEq, here, Note.mk.injEq] at same
      obtain ⟨rfl, rfl, content⟩ := same
      exact borne tcr content
    · cases task

end Within

/-- The ROUTE_GOTO rules of a chain after a new rule was made. -/
theorem gotos_alloc {chainNo : UInt32} {e : UInt16 × TcRule} (member : e ∈ g'.gotos w' chainNo)
    {rule : ObjRule} (rules : w'.rules = w.rules.alloc rule) (kernel : w'.kernel = w.kernel)
    (waiting : w'.waiting = w.waiting) (quiet : ∀ note, g'.task ≠ some (.report note)) :
    e ∈ g.gotos w chainNo ∨
      rule.chainNo = chainNo ∧ rule.prio = e.1 ∧
        (rule.wantTcr = some e.2 ∨ rule.haveTcr = some e.2) := by
  obtain ⟨routes, bears | task⟩ := member
  · cases bears with
    | filter here => exact .inl ⟨routes, .inl (.filter (kernel ▸ here))⟩
    | noted member => exact .inl ⟨routes, .inl (.noted (kernel ▸ member))⟩
    | waits tca member chain position content =>
      exact .inl ⟨routes, .inl (.waits tca (waiting ▸ member) chain position content)⟩
    | rule r live chain position content =>
      by_cases same : r = w.rules.next
      · rw [same, rules, Heap.cell_alloc_same] at chain position content
        exact .inr ⟨chain, position, content⟩
      · rw [World.Live, rules, Heap.cell_alloc_ne _ _ same] at live
        rw [rules, Heap.cell_alloc_ne _ _ same] at chain position content
        exact .inl ⟨routes, .inl (.rule r live chain position content)⟩
  · exact absurd task (quiet _)

/-- With no report on its way, only what the world holds counts. -/
theorem Ghost.gotos_quiet (quiet : ∀ note, g.task ≠ some (.report note)) (chainNo : UInt32) :
    g.gotos w chainNo = w.gotos chainNo := by
  ext e
  refine ⟨fun ⟨routes, bears⟩ => ⟨routes, bears.resolve_right (quiet _)⟩, fun ⟨routes, bears⟩ => ?_⟩
  exact ⟨routes, .inl bears⟩

/-- What a search for a free priority sees stays. -/
theorem SamePositions.nextPrio (same : SamePositions w w') {chainNo : UInt32}
    {minPrio prio : UInt16} (next : w.NextPrio chainNo minPrio prio) :
    w'.NextPrio chainNo minPrio prio := by
  have prios : w'.prios chainNo w'.posTree.toList = w.prios chainNo w.posTree.toList := by
    simp only [World.prios, same.posTree, fun r => (same.place r).1, fun r => (same.place r).2.1]
  obtain ⟨first, begins, least⟩ := next
  refine ⟨first, ?_, ?_⟩
  · rw [World.FirstPrio, prios]
    exact begins
  · rw [prios]
    exact least

/-- What a request needs stays, where nothing comes to a position. -/
theorem World.Ranks.same {tcr : TcRule} (ranks : w.Ranks tcr) (same : SamePositions w w')
    (fewer : ∀ chainNo, w'.gotos chainNo ⊆ w.gotos chainNo) : w'.Ranks tcr := by
  intro chainNo routes
  obtain ⟨prio, next, fits⟩ := ranks chainNo routes
  exact ⟨prio, same.nextPrio next, fits.mono (fewer chainNo)⟩

namespace Ranked

/-- What is preserved where nothing comes to a position. -/
theorem keep (ranked : Ranked g w) (within : Within g w g' w')
    (quiet : ∀ tcr, g'.task ≠ some (.request tcr)) : Ranked g' w' where
  ordered chainNo := (ranked.ordered chainNo).mono (within.gotos chainNo)
  requested tcr task := absurd task (quiet tcr)

/-- The same with a request on its way. -/
theorem write (ranked : Ranked g w) (within : Within g w g' w') (same : SamePositions w w')
    (task : g'.task = g.task) (content : ∀ tcr, objRuleLafLookup tcr w' = objRuleLafLookup tcr w) :
    Ranked g' w' where
  ordered chainNo := (ranked.ordered chainNo).mono (within.gotos chainNo)
  requested tcr here search := by
    have before : g.task = some (.request tcr) := task ▸ here
    have quiet : ∀ note, g.task ≠ some (.report note) := fun note report => by
      rw [before] at report
      cases report
    have quiet' : ∀ note, g'.task ≠ some (.report note) := fun note => task ▸ quiet note
    refine (ranked.requested tcr before (content tcr ▸ search)).same same fun chainNo => ?_
    rw [← Ghost.gotos_quiet (w := w) quiet, ← Ghost.gotos_quiet (w := w') quiet']
    exact within.gotos chainNo

/-- A rule comes to the position that was found for it. -/
theorem place (ranked : Ranked g w) {tcr : TcRule} (task : g.task = some (.request tcr))
    (search : objRuleLafLookup tcr w = .ok none) (placed : Placed w) {w₁ : World}
    {chainNo : UInt32} {prio : UInt16}
    (place : schedBasicPlace tcr w = .ok (some (chainNo, prio), w₁)) {rule : ObjRule}
    (rules : w'.rules = w.rules.alloc rule) (kernel : w'.kernel = w.kernel)
    (waiting : w'.waiting = w.waiting) (here : rule.chainNo = chainNo ∧ rule.prio = prio)
    (content : rule.wantTcr = some tcr ∧ rule.haveTcr = none)
    (quiet : ∀ note, g'.task ≠ some (.report note))
    (quiet' : ∀ tcr, g'.task ≠ some (.request tcr)) : Ranked g' w' where
  ordered ch := by
    have before : ∀ note, g.task ≠ some (.report note) := fun note report => by
      rw [task] at report
      cases report
    obtain ⟨rfl, rfl⟩ := here
    by_cases routes : tcr.Routes rule.chainNo
    · -- the search found the priority that fits
      obtain ⟨next, least, fits⟩ := ranked.requested tcr task search rule.chainNo routes
      have same : rule.prio = next := by
        rw [schedBasicPlace, routes.1] at place
        obtain ⟨afChain, chain, place⟩ := bind_returned place
        obtain ⟨found, searched, place⟩ := bind_returned place
        obtain ⟨_, -, place⟩ := bind_returned place
        cases place
        exact least.found placed searched
      subst same
      by_cases this : ch = rule.chainNo
      · subst this
        rw [← Ghost.gotos_quiet before] at fits
        refine ((ranked.ordered rule.chainNo).insert fits).mono fun e member => ?_
        rcases gotos_alloc member rules kernel waiting quiet with old | ⟨-, position, want | have'⟩
        · exact .inr old
        · rw [content.1] at want
          cases want
          exact .inl (Prod.ext position.symm rfl)
        · rw [content.2] at have'
          cases have'
      · refine (ranked.ordered ch).mono fun e member => ?_
        rcases gotos_alloc member rules kernel waiting quiet with old | ⟨chain, -⟩
        · exact old
        · exact absurd chain.symm this
    · refine (ranked.ordered ch).mono fun e member => ?_
      rcases gotos_alloc member rules kernel waiting quiet with old | ⟨chain, -, want | have'⟩
      · exact old
      · rw [content.1] at want
        cases want
        exact absurd (chain ▸ member.1) routes
      · rw [content.2] at have'
        cases have'
  requested other task := absurd task (quiet' other)

end Ranked

/-- A rule that is found by content has it. -/
theorem objRuleLafLookup_has {tcr : TcRule} {r : RuleId}
    (search : objRuleLafLookup tcr w = .ok (some r)) : (w.rules.cell r).haveTcr = some tcr := by
  obtain ⟨-, equal⟩ := SearchTree.find_some search
  obtain ⟨rule, followed, equal⟩ := bind_returned equal
  obtain ⟨-, rfl⟩ := rule_ok followed
  split at equal
  · cases equal
  · next content has =>
    rw [TcRule.memcmp_eq_zero.mp (Except.ok.inj equal)]
    exact has

/-- Every effect keeps the order, while no route is being installed. -/
theorem Effect.ranked (alone : g.installing = 0) (placed : Placed w) (ranked : Ranked g w)
    (effect : Effect g w g' w') : Ranked g' w' := by
  have lookup : ∀ {r : RuleId} {f : ObjRule → ObjRule}, w.Live r →
      (f (w.rules.cell r)).obj.kind = .rule →
      (∀ rule, (f rule).chainNo = rule.chainNo ∧ (f rule).prio = rule.prio ∧
        (f rule).havePos = rule.havePos ∧ (f rule).type = rule.type) →
      (∀ rule, (f rule).haveTcr = rule.haveTcr) →
      SamePositions w (w.setRule r f) ∧
        ∀ tcr, objRuleLafLookup tcr (w.setRule r f) = objRuleLafLookup tcr w := by
    intro r f live kind place content
    have same := SamePositions.modify (rules_setRule w r f) place live kind rfl rfl
    refine ⟨same, fun tcr => objRuleLafLookup_congr rfl same.live fun p => ?_⟩
    exact Heap.cell_modify_field _ _ _ ObjRule.haveTcr content
  have silent : g'.Free → ∀ note, g'.task = some (.report note) → g.task = some (.report note) :=
    fun free note task => absurd task (free.quiet.report note)
  cases effect with
  | ref live =>
    obtain ⟨same, content⟩ := lookup (f := fun rule => { rule with obj := objRef rule.obj }) live
      (by rw [kind_objRef]; exact live) (fun _ => ⟨rfl, rfl, rfl, rfl⟩) fun _ => rfl
    exact ranked.write (.write (fun _ => ⟨rfl, rfl⟩) (fun _ _ => id) live fun _ => id) same rfl
      content
  | @unref _ _ r obj live counted =>
    have kind : obj.kind = .rule := by rw [(objUnref_ok counted).1]; exact live
    obtain ⟨same, content⟩ := lookup (f := fun rule => { rule with obj }) live kind
      (fun _ => ⟨rfl, rfl, rfl, rfl⟩) fun _ => rfl
    exact ranked.write (.write (fun _ => ⟨rfl, rfl⟩) (fun _ _ => id) live fun _ => id) same rfl
      content
  | unwant _ live _ _ _ _ _ =>
    refine ranked.keep (.write (fun _ => ⟨rfl, rfl⟩) (fun _ _ has => ?_) live ?_) fun _ h => by cases h
    · exact .inr (has.resolve_left fun h => by cases h)
    · exact fun _ h => by cases h
  | @reap _ _ _ r idle live reapable reaped =>
    obtain ⟨rfl, -⟩ := objRuleReap_ok reaped
    have rules : (w.reaped r).rules = w.rules.modify r ObjRule.reaped := by
      simp [World.reaped, World.setRule]
    have kernel : (w.reaped r).kernel = w.kernel := by simp [World.reaped, World.setRule]
    have waiting : (w.reaped r).waiting = w.waiting := by
      simp [World.waiting, World.reaped, World.setRule]
    refine ranked.keep (.modify rules (fun _ => ⟨rfl, rfl⟩) live ?_ kernel ?_ fun _ => id)
      idle.quiet.request
    · exact fun tcr has => has.elim (fun h => by cases h) (fun h => by cases h)
    · rw [waiting]
      exact fun _ => .inl
  | skip idle _ =>
    exact ranked.keep (.keep rfl rfl rfl (silent idle))
      idle.quiet.request
  | settle idle live _ _ _ =>
    refine ranked.keep (.write (fun _ => ⟨rfl, rfl⟩) (fun _ _ => id) live ?_) idle.quiet.request
    exact silent idle
  | confirm idle live _ _ _ _ _ =>
    refine ranked.keep (.write (fun _ => ⟨rfl, rfl⟩) (fun _ _ => id) live ?_) idle.quiet.request
    exact silent idle
  | @schedule _ _ tca idle live _ _ chainNo prio requests =>
    have waiting : (w.scheduled tca).waiting = w.waiting ++ [tca] := waiting_enqueue w.queue tca
    refine ranked.keep (.modify (w.rules_scheduled tca) (fun _ => ⟨rfl, rfl⟩) live ?_ rfl ?_ ?_)
      idle.quiet.request
    · exact fun tcr has => .inl (.rule tca.data live rfl rfl has)
    · intro other member
      rw [waiting] at member
      rcases List.mem_append.mp member with before | last
      · exact .inl before
      · rw [List.mem_singleton.mp last]
        refine .inr fun tcr content => .inl (.rule tca.data live chainNo.symm prio.symm (.inl ?_))
        generalize tca.tcr = request at requests content
        cases requests with
        | install _ _ _ => exact content
        | uninstall _ _ _ => cases content
    · exact silent idle
  | execute idle started live =>
    refine ranked.keep (.execute started) fun tcr task => ?_
    rw [Ghost.next_task, World.echo] at task
    split at task
    · obtain ⟨other, -, same⟩ := Option.map_eq_some_iff.mp task
      cases same
    · cases task
  | complete idle completed =>
    exact ranked.keep (.keep rfl rfl (waiting_handleQueueCompleted completed) fun _ => id)
      idle.quiet.request
  | leave idle _ => exact ranked.keep (.keep rfl rfl rfl fun _ => id) idle.quiet.request
  | ignore idle _ _ =>
    exact ranked.keep (.keep rfl rfl rfl (silent idle))
      idle.quiet.request
  | @found gg _ r chainNo prio tcr idle search live chain position differs =>
    subst chain position
    refine ranked.keep (.modify (rules_setRule ..) (fun _ => ⟨rfl, rfl⟩) live ?_ rfl
      (fun _ => .inl) fun _ h => by cases h) fun _ h => by cases h
    rintro other (want | has)
    · exact .inl (.rule r live rfl rfl (.inl want))
    · cases has
      exact .inr rfl
  | @vanish gg _ r chainNo prio tcr idle search live =>
    have task : ∀ task, ((gg.lend r).next
        (if (w.rules.cell r).wantTcr = none then none else some (.update r))).task = some task →
        task = .update r := by
      intro task here
      rw [Ghost.next_task] at here
      split at here
      · cases here
      · exact (Option.some.inj here).symm
    refine ranked.keep (.modify (rules_setRule ..) (fun _ => ⟨rfl, rfl⟩) live ?_ rfl
      (fun _ => .inl) fun note here => by cases task _ here) fun tcr here => by cases task _ here
    exact fun other has => .inl (.rule r live rfl rfl (.inl (has.resolve_right fun h => by cases h)))
  | @discover gg _ _ _ chainNo prio tcr idle search inPos inLaf =>
    obtain ⟨_, pos, laf, -, -, -, link, -, rfl⟩ := objRuleNew_alloc inPos inLaf
    refine ⟨fun ch => (ranked.ordered ch).mono fun e member => ?_, fun _ h => by cases h⟩
    rcases gotos_alloc (w := w) (g := gg.ask (.report ⟨chainNo, prio, some tcr⟩)) member rfl rfl rfl
      (fun _ h => by cases h) with old | ⟨chain, position, want | has⟩
    · exact old
    · cases want
    · cases has
      cases chain
      cases position
      exact ⟨member.1, .inr rfl⟩
  | @adopt gg _ r tcr idle search live present unwanted lost =>
    refine ranked.keep (.modify (w.rules_adopted r tcr) (fun _ => ⟨rfl, rfl⟩) live ?_ rfl
      (fun _ => .inl) fun _ h => by cases h) fun _ h => by cases h
    rintro other (want | has)
    · cases want
      exact .inl (.rule r live rfl rfl (.inr (objRuleLafLookup_has search)))
    · exact .inl (.rule r live rfl rfl (.inr has))
  | @place gg _ w₁ _ chainNo prio tcr idle search place inserted =>
    obtain ⟨⟨chainTree, rfl⟩, -⟩ := returns_iff.mp (schedBasicPlace_returns tcr w) _ place
    obtain ⟨-, linked, -, rfl⟩ := objRulePosInsert_alloc (w := { w with chainTree }) inserted
    exact ranked.place rfl search placed place rfl rfl rfl ⟨rfl, rfl⟩ ⟨rfl, rfl⟩
      (fun _ h => by cases h) fun _ h => by cases h
  | decline idle _ _ _ =>
    exact ranked.keep (.keep rfl rfl rfl (silent idle))
      idle.quiet.request
  | begin idle _ => exact ranked.keep (.keep rfl rfl rfl fun _ => id) idle.quiet.request
  | aim _ _ _ => simp at alone
  | reaim _ _ _ => simp at alone
  | demand _ _ _ => simp at alone
  | plant _ _ => simp at alone
  | finish _ _ => simp at alone
  | shut idle _ => exact ranked.keep (.keep rfl rfl rfl fun _ => id) idle.quiet.request

end Preservation

/-- A run of the rule objects with its positions and the order of the ROUTE_GOTO rules. -/
structure Arranged (g : Ghost) (w : World) : Prop where
  stationed : Stationed False g w
  ranked : Ranked g w

/-- What an event needs: no other ROUTE_GOTO rule comes to a chain than those that are requested
where they fit. -/
def RuleEvent.Ranks (s : Owners) : RuleEvent → Prop
  | .staticWant chainNo _ tcr => ¬ tcr.Routes chainNo
  | .request tcr => objRuleLafLookup tcr s.world = .ok none → s.world.Ranks tcr
  | .message nlmsgType chainNo _ tcr => nlmsgType = rtmDeltfilter ∨ ¬ tcr.Routes chainNo
  | .foreign note => ∀ tcr, note.filter = some tcr → ¬ tcr.Routes note.chainNo
  | _ => True

/-- The same for events with chains, beside the bounds on the numbers of chains. -/
def ChainEvent.Ranks (s : Owners) (e : ChainEvent) : Prop :=
  e.Fits False s ∧ ∀ event, e = .rule event → event.Ranks s

section Runs

variable {g : Ghost} {w w' : World}

/-- Every effect keeps the order of a run. -/
theorem keeps_arranged : Keeps Arranged where
  sound arranged := arranged.stationed.orderly.sound
  kept arranged effect := by
    obtain ⟨stationed, ranked⟩ := arranged
    exact ⟨keeps_stationed.kept stationed effect,
      effect.ranked stationed.orderly.alone.installing stationed.positioned.placed ranked⟩

/-- So does every step of `obj_rule_remove_pin`. -/
theorem unpins_arranged (s : Owners) : Unpins Arranged s.ghost where
  toKeeps := keeps_arranged
  visit r inside arranged :=
    ⟨(unpins_stationed s).visit r inside arranged.stationed,
      arranged.ranked.keep (.keep rfl rfl rfl fun _ => nofun) fun _ => nofun⟩
  raise pin nonzero arranged :=
    ⟨(unpins_stationed s).raise pin nonzero arranged.stationed,
      arranged.ranked.keep (.keep rfl rfl rfl fun _ => id) fun _ => nofun⟩

/-- The first move of every event keeps the order of a run. -/
theorem carries_arranged :
    Carries (fun s e => e.Fits False s ∧ e.Ranks s) Arranged where
  toKeeps := keeps_arranged
  staticWant {s chainNo prio tcr w} arranged meets search inserted := by
    obtain ⟨stationed, ranked⟩ := arranged
    refine ⟨carries_stationed.staticWant stationed meets.1 search inserted,
      fun ch => (ranked.ordered ch).mono fun e member => ?_, fun _ => nofun⟩
    obtain ⟨-, linked, -, rfl⟩ := objRulePosInsert_alloc inserted
    rcases gotos_alloc (w := s.world) (g := s.ghost) member rfl rfl rfl (fun _ => nofun) with
      old | ⟨chain, -, want | has⟩
    · exact old
    · cases want
      cases chain
      exact absurd member.1 meets.2
    · cases has
  request {s tcr} arranged meets := by
    refine ⟨carries_stationed.request arranged.stationed meets.1, ?_, fun other task search => ?_⟩
    · intro ch
      refine (arranged.ranked.ordered ch).mono (Within.gotos (.keep rfl rfl rfl ?_) ch)
      exact fun _ task => by cases task
    · cases task
      exact meets.2 search
  uninstall {s r} arranged meets live := by
    refine ⟨carries_stationed.uninstall arranged.stationed meets.1 live, ?_⟩
    refine arranged.ranked.keep (.write (fun _ => ⟨rfl, rfl⟩) (fun _ _ has => ?_) live ?_)
      fun _ => nofun
    · exact .inr (has.resolve_left nofun)
    · exact fun _ => nofun
  removePin {s} bound arranged _ zero :=
    objRuleRemovePin_keeps (unpins_arranged s) bound s.ready bound zero arranged
  message {s nlmsgType chainNo prio tcr} arranged meets := by
    refine ⟨carries_stationed.message arranged.stationed meets.1, ?_, fun _ => nofun⟩
    intro ch
    refine (arranged.ranked.ordered ch).mono (Within.gotos ⟨?_, ?_, ?_, ?_, ?_⟩ ch)
    · exact fun chain position other _ here => .inl (.filter here)
    · exact fun chain position other _ member => .inl (.noted member)
    · exact fun tca member other _ content => .inl (.waits tca member rfl rfl content)
    · exact fun r live other _ has => .inl (.rule r live rfl rfl has)
    · intro chain position other routes task
      rw [Ghost.ask_task, Option.some.injEq, Task.report.injEq, Note.mk.injEq] at task
      obtain ⟨rfl, rfl, content⟩ := task
      rcases meets.2 with gone | apart
      · rw [if_pos gone] at content
        cases content
      · split at content
        · cases content
        · cases content
          exact absurd routes apart
  completed {s _ queue} arranged meets completed :=
    ⟨carries_stationed.completed arranged.stationed meets.1 completed, arranged.ranked.keep
      (.keep rfl rfl (waiting_handleQueueCompleted completed) fun _ => id) fun _ => nofun⟩
  notified {s note notes} arranged meets here := by
    refine ⟨carries_stationed.notified arranged.stationed meets.1 here, arranged.ranked.keep
      ⟨?_, ?_, ?_, ?_, ?_⟩ fun _ => nofun⟩
    · exact fun chain position other _ has => .inl (.filter has)
    · intro chain position other _ member
      refine .inl (.noted ?_)
      rw [here]
      exact List.mem_cons_of_mem _ member
    · exact fun tca member other _ content => .inl (.waits tca member rfl rfl content)
    · exact fun r live other _ has => .inl (.rule r live rfl rfl has)
    · intro chain position other _ task
      refine .inl (.noted ?_)
      rw [here, Task.report.inj (Option.some.inj task)]
      exact List.mem_cons_self
  foreign {s note} arranged meets := by
    refine ⟨carries_stationed.foreign arranged.stationed meets.1, arranged.ranked.keep
      ⟨?_, ?_, ?_, ?_, ?_⟩ fun _ => nofun⟩
    · intro chain position other routes has
      simp only [Kernel.change] at has
      split at has
      · next same =>
        rw [same.1] at routes
        exact absurd routes (meets.2 other has)
      · exact .inl (.filter has)
    · intro chain position other routes member
      rcases List.mem_append.mp member with before | new
      · exact .inl (.noted before)
      · rw [List.mem_singleton] at new
        subst new
        exact absurd routes (meets.2 other rfl)
    · exact fun tca member other _ content => .inl (.waits tca member rfl rfl content)
    · exact fun r live other _ has => .inl (.rule r live rfl rfl has)
    · exact fun _ _ _ _ => nofun
  echoing {s echoes} arranged meets := by
    refine ⟨carries_stationed.echoing arranged.stationed meets.1, arranged.ranked.keep
      ⟨?_, ?_, ?_, ?_, ?_⟩ fun _ => nofun⟩
    · exact fun chain position other _ has => .inl (.filter has)
    · exact fun chain position other _ member => .inl (.noted member)
    · exact fun tca member other _ content => .inl (.waits tca member rfl rfl content)
    · exact fun r live other _ has => .inl (.rule r live rfl rfl has)
    · exact fun _ _ _ _ => nofun

/-- A chain changes nothing about the order. -/
theorem Arranged.gotChain (arranged : Arranged g w) (free : g.Free) {chainNo : UInt32}
    (bound : chainNo.toNat < 2 ^ 28) (got : filterGotChain chainNo w = .ok w') :
    Arranged g w' ∧ w'.pinChanges = w.pinChanges := by
  obtain ⟨chainTree, rfl, -⟩ := arranged.stationed.positioned.chained.gotChain bound got
  obtain ⟨stationed, pins⟩ := arranged.stationed.gotChain free bound got
  exact ⟨⟨stationed, arranged.ranked.keep (.keep rfl rfl rfl fun _ => id) free.quiet.request⟩, pins⟩

/-- A world without a rule is arranged, where the kernel has no ROUTE_GOTO rule in its chain. -/
theorem World.Blank.arranged (blank : w.Blank)
    (kernel : ∀ chainNo prio tcr, w.kernel.filters chainNo prio = some tcr →
      ¬ tcr.Routes chainNo) : Arranged {} w := by
  refine ⟨blank.stationed, fun chainNo a inside => ?_, fun _ => nofun⟩
  obtain ⟨conn, queue⟩ := blank.queue
  obtain ⟨routes, bears | task⟩ := inside
  · cases bears with
    | filter here => exact absurd routes (kernel _ _ _ here)
    | noted member =>
      rw [blank.notes] at member
      exact absurd member List.not_mem_nil
    | waits tca member =>
      rw [World.waiting, queue] at member
      exact absurd member List.not_mem_nil
    | rule r live =>
      rw [World.Live, blank.rules] at live
      cases live
  · cases task

/-- The order between two events of a run. -/
theorem Owners.ChainReached.arranged {s : Owners} (blank : w.Blank)
    (kernel : ∀ chainNo prio tcr, w.kernel.filters chainNo prio = some tcr →
      ¬ tcr.Routes chainNo)
    (reached : ChainReached (fun s e => e.Ranks s) w s) : Between Arranged s := by
  induction reached with
  | start => exact ⟨blank.arranged kernel, .inl blank.pinChanges⟩
  | @step s s' e _ _ allowed ranks ran ih =>
    cases e with
    | rule e =>
      exact (RuleEvent.run_keeps carries_arranged allowed ⟨ranks.1, ranks.2 e rfl⟩ ih _).of_ok ran
    | gotChain chainNo =>
      obtain ⟨w', got, ran⟩ := bind_returned ran
      cases ran
      obtain ⟨kept, same⟩ := ih.kept.gotChain (show s.ghost.Free from rfl) ranks.1 got
      exact ⟨kept, same ▸ ih.pins⟩

end Runs

/-- What the kernel tries in a chain: its ROUTE_GOTO filters, with their priorities. -/
def Kernel.gotos (k : Kernel) (chainNo : UInt32) : Set (UInt16 × TcRule) :=
  { e | e.2.Routes chainNo ∧ k.filters chainNo e.1 = some e.2 }

/-- A ROUTE_GOTO rule for an IPv4 prefix. -/
def gotoPrefix (octets : BitVec 32) (maskLen : UInt8) : TcRule where
  type := .routeGoto
  traits := typeTraits .routeGoto
  afAddr := ⟨afInet, maskLen, octets ++ (0 : BitVec 96), 0⟩
  gotoTarget := 5

/-- A blank world with a kernel that reports inside the call. -/
def echoingWorld : World := { queue := { conn := some 0 }, kernel := { echoes := true } }

theorem echoingWorld_blank : echoingWorld.Blank where
  pinChanges := rfl
  targets := rfl
  routes := rfl
  rules := rfl
  ruleCnt := rfl
  posTree := rfl
  lafTree := rfl
  chainTree := rfl
  queue := ⟨0, rfl⟩
  notes := rfl
  log := rfl

end FlowerRoute
