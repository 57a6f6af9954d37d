import FlowerRoute.Verif.Mirror
import FlowerRoute.Verif.LongestPrefix
import FlowerRoute.Verif.StaticRules

/-!
# Synchronised rules

What the owners of rules get from the daemon: once the pins are removed, the kernel's filters are
those that the rules want. This is for a kernel that reports inside the call that sends a request,
as the tests do by decoding it again, and whose filters nobody else changes; and for the shapes of
rules that are decoded as they were encoded.
-/

namespace FlowerRoute

open Outcome

/-- A rule has what it wants, or something is under way for it. -/
inductive Ghost.Syncs (g : Ghost) (w : World) (r : RuleId) : Prop
  | settled : (w.rules.cell r).wantTcr = (w.rules.cell r).haveTcr →
      ((w.rules.cell r).haveTcr ≠ none → (w.rules.cell r).state = .ok) → Syncs g w r
  | queued : (w.rules.cell r).state = .queued → Syncs g w r
  | updated : g.task = some (.update r) → Syncs g w r
  | reported (note : Note) : g.task = some (.report note) →
      (w.rules.cell r).chainNo = note.chainNo → (w.rules.cell r).prio = note.prio → Syncs g w r

/-- Every request that was sent changed the kernel: it installed a filter where there was none, or
it removed one. -/
def World.Obeyed (w : World) : Prop :=
  ∀ tca filter want, .sent tca filter want ∈ w.log → (tca.tcr ≠ none ↔ filter = none)

/-- What the rules want, and what is requested, has one of the shapes of the daemon. -/
structure Shaped (g : Ghost) (w : World) : Prop where
  wants : ∀ r, w.Live r → ∀ tcr, (w.rules.cell r).wantTcr = some tcr → DaemonRule tcr
  asked : ∀ tcr, g.task = some (.request tcr) → DaemonRule tcr

/-- A run of the rule objects in which the kernel is mirrored, and in which some rules have what
they want once the pins are removed. -/
structure Synchronised (visited : RuleId → Prop) (g : Ghost) (w : World) : Prop where
  stationed : Stationed True g w
  mirrored : Mirrored g w
  shaped : Shaped g w
  obeyed : w.Obeyed
  synced : w.pinChanges = 3 → ∀ r, w.Live r → visited r → g.Syncs w r

/-- The same in a pass over the tree, in which no rule is made. -/
structure Passing (members : List RuleId) (visited : RuleId → Prop) (g : Ghost) (w : World) :
    Prop extends Synchronised visited g w where
  fewer : w.posTree.toList.Sublist members
  unasked : ∀ tcr, g.task ≠ some (.request tcr)

section Preservation

variable {g g' : Ghost} {w w' : World} {visited : RuleId → Prop}

namespace Ghost.Syncs

/-- With nothing to go on with, anything may be next. -/
theorem of_free {r : RuleId} (syncs : g.Syncs w r) (free : g.Free) : g'.Syncs w r := by
  rw [Free] at free
  cases syncs with
  | settled same state => exact .settled same state
  | queued state => exact .queued state
  | updated task => rw [free] at task; cases task
  | reported note task => rw [free] at task; cases task

/-- A rule that another one's update leaves alone. -/
theorem of_update {r p : RuleId} (syncs : (g.ask (.update r)).Syncs w p) (apart : p ≠ r) :
    g'.Syncs w p := by
  cases syncs with
  | settled same state => exact .settled same state
  | queued state => exact .queued state
  | updated task => cases task; exact absurd rfl apart
  | reported note task => cases task

/-- The same for a request. -/
theorem of_request {tcr : TcRule} {p : RuleId} (syncs : (g.ask (.request tcr)).Syncs w p) :
    g'.Syncs w p := by
  cases syncs with
  | settled same state => exact .settled same state
  | queued state => exact .queued state
  | updated task => cases task
  | reported note task => cases task

/-- A report about another rule does not matter. -/
theorem of_report (mirrored : Mirrored (g.ask (.report note)) w) {r p : RuleId}
    (syncs : (g.ask (.report note)).Syncs w p) (live : w.Live r) (live' : w.Live p)
    (chainNo : (w.rules.cell r).chainNo = note.chainNo) (prio : (w.rules.cell r).prio = note.prio)
    (apart : p ≠ r) : g'.Syncs w p := by
  cases syncs with
  | settled same state => exact .settled same state
  | queued state => exact .queued state
  | updated task => cases task
  | reported note task chain position =>
    cases task
    exact absurd (mirrored.unique live live' (chain.trans chainNo.symm)
      (position.trans prio.symm)) apart

/-- The rule has the same value. -/
theorem cell {r : RuleId} (syncs : g.Syncs w r) (same : w'.rules.cell r = w.rules.cell r) :
    g.Syncs w' r := by
  cases syncs with
  | settled agrees state => exact .settled (by rw [same, agrees]) (by rw [same]; exact state)
  | queued state => exact .queued (by rw [same, state])
  | updated task => exact .updated task
  | reported note task chain position =>
    exact .reported note task (by rw [same, chain]) (by rw [same, position])

/-- A write that changes only the object. -/
theorem obj {r p : RuleId} {f : ObjRule → ObjRule} (syncs : g.Syncs w p)
    (task : g'.task = g.task) (want : ∀ rule, (f rule).wantTcr = rule.wantTcr)
    (content : ∀ rule, (f rule).haveTcr = rule.haveTcr)
    (state : ∀ rule, (f rule).state = rule.state)
    (place : ∀ rule, (f rule).chainNo = rule.chainNo ∧ (f rule).prio = rule.prio) :
    g'.Syncs (w.setRule r f) p := by
  have kept : ∀ {β : Type} (field : ObjRule → β), (∀ rule, field (f rule) = field rule) →
      field ((w.setRule r f).rules.cell p) = field (w.rules.cell p) := fun field same =>
    Heap.cell_modify_field w.rules r p field same
  cases syncs with
  | settled agrees ok =>
    refine .settled ?_ ?_
    · rw [kept ObjRule.wantTcr want, kept ObjRule.haveTcr content, agrees]
    · rw [kept ObjRule.haveTcr content, kept ObjRule.state state]
      exact ok
  | queued state' => exact .queued (by rw [kept ObjRule.state state, state'])
  | updated task' => exact .updated (task.trans task')
  | reported note task' chain position =>
    refine .reported note (task.trans task') ?_ ?_
    · rw [kept ObjRule.chainNo fun rule => (place rule).1, chain]
    · rw [kept ObjRule.prio fun rule => (place rule).2, position]

end Ghost.Syncs

/-- Every effect leaves a rule with what it wants, or with something under way for it. -/
theorem Effect.syncs (mirrored : Mirrored g w) (alone : g.installing = 0)
    (removed : w.pinChanges = 3) (effect : Effect g w g' w') {p : RuleId} (live : w'.Live p)
    (before : w.Live p → g.Syncs w p) : g'.Syncs w' p := by
  -- what holds of a rule that a change of another one does not touch
  have other : ∀ {r : RuleId} {f : ObjRule → ObjRule}, w'.rules = w.rules.modify r f → p ≠ r →
      w.Live p ∧ w'.rules.cell p = w.rules.cell p := fun rules apart => by
    rw [World.Live, rules, Heap.cell_modify_ne _ _ apart] at live
    rw [rules, Heap.cell_modify_ne _ _ apart]
    exact ⟨live, rfl⟩
  cases effect with
  | @ref _ _ r here =>
    have alive : w.Live p := by
      have same := Heap.cell_modify_field (f := fun rule => { rule with obj := objRef rule.obj })
        w.rules r p (fun rule => rule.obj.kind) fun _ => kind_objRef _
      rw [World.Live, rules_setRule, same] at live
      exact live
    exact (before alive).obj rfl (fun _ => rfl) (fun _ => rfl) (fun _ => rfl) fun _ => ⟨rfl, rfl⟩
  | @unref _ _ r obj here counted =>
    have alive : w.Live p := by
      by_cases same : p = r
      · exact same ▸ here
      · exact (other (rules_setRule ..) same).1
    exact (before alive).obj rfl (fun _ => rfl) (fun _ => rfl) (fun _ => rfl) fun _ => ⟨rfl, rfl⟩
  | @unwant _ _ r idle here _ _ _ _ _ =>
    by_cases same : p = r
    · subst same
      exact .updated rfl
    · obtain ⟨alive, kept⟩ := other (rules_setRule ..) same
      exact ((before alive).of_free idle).cell kept
  | @reap _ _ _ r idle here reapable reaped =>
    obtain ⟨rfl, -⟩ := objRuleReap_ok reaped
    have rules : (w.reaped r).rules = w.rules.modify r ObjRule.reaped := by
      simp [World.reaped, World.setRule]
    have apart : p ≠ r := fun same => by
      rw [same, World.Live, rules, Heap.cell_modify_same] at live
      cases live
    obtain ⟨alive, kept⟩ := other rules apart
    exact (before alive).cell kept
  | @skip _ _ r idle skips =>
    by_cases same : p = r
    · subst same
      cases skips with
      | pinned zero => rw [removed] at zero; cases zero
      | queued state => exact .queued state
      | new unwanted absent _ =>
        exact .settled (unwanted.trans absent.symm) fun present => absurd absent present
    · exact (before live).of_update same
  | @settle _ _ r state idle here _ unqueued settles =>
    by_cases same : p = r
    · subst same
      have cell : (w.setRule p fun rule => { rule with state }).rules.cell p =
          { w.rules.cell p with state } := by rw [cell_setRule]
      cases settles with
      | zombie unwanted absent _ =>
        refine .settled ?_ fun present => ?_
        · rw [cell]
          exact unwanted.trans absent.symm
        · rw [cell] at present
          exact absurd absent present
      | want _ _ pins => rw [removed] at pins; exact absurd pins (by decide)
      | alien _ _ pins => rw [removed] at pins; exact absurd pins (by decide)
      | ok present same target =>
        refine .settled ?_ fun _ => ?_
        · rw [cell]
          exact same
        · rw [cell]
    · obtain ⟨alive, kept⟩ := other (rules_setRule ..) same
      exact ((before alive).of_update same).cell kept
  | @confirm _ _ r t idle here _ _ present agrees _ =>
    by_cases same : p = r
    · subst same
      have cell : (w.setRule p fun rule => { rule with state := .ok }).rules.cell p =
          { w.rules.cell p with state := .ok } := by rw [cell_setRule]
      refine .settled ?_ fun _ => ?_
      · rw [cell]
        exact agrees
      · rw [cell]
    · obtain ⟨alive, kept⟩ := other (rules_setRule ..) same
      exact ((before alive).of_update same).cell kept
  | @schedule _ _ tca idle here _ _ _ _ _ =>
    by_cases same : p = tca.data
    · subst same
      refine .queued ?_
      rw [w.rules_scheduled, Heap.cell_modify_same]
    · obtain ⟨alive, kept⟩ := other (w.rules_scheduled tca) same
      exact ((before alive).of_update same).cell kept
  | @execute _ _ tca queue idle started here =>
    by_cases same : p = tca.data
    · subst same
      have order := waiting_queueProcess started
      have aims := mirrored.waits tca (order ▸ List.mem_cons_self)
      have cell : (w.executed tca queue).rules.cell tca.data =
          { w.rules.cell tca.data with state := .pending } := by
        rw [w.rules_executed, Heap.cell_modify_same]
      refine .reported ⟨tca.chainNo, tca.prio, tca.tcr⟩ ?_ ?_ ?_
      · rw [Ghost.next, World.echo, if_pos mirrored.echoes, mirrored.answer idle here aims]
        rfl
      · rw [cell]
        exact aims.chainNo.symm
      · rw [cell]
        exact aims.prio.symm
    · obtain ⟨alive, kept⟩ := other (w.rules_executed tca queue) same
      exact ((before alive).of_free idle).cell kept
  | complete idle _ =>
    have moved : g'.Syncs w p := (before live).of_free idle
    exact moved.cell rfl
  | leave idle _ => exact (before live).of_free idle
  | ignore idle gone found => exact (mirrored.heeded rfl gone found).elim
  | @found _ _ r chainNo prio tcr idle search here chain position _ =>
    by_cases same : p = r
    · subst same
      exact .updated rfl
    · obtain ⟨alive, kept⟩ := other (rules_setRule ..) same
      exact ((before alive).of_report mirrored here alive chain position same).cell kept
  | @vanish gg _ r chainNo prio tcr idle search here =>
    obtain ⟨chain, position⟩ := objRuleFind_some search
    by_cases same : p = r
    · subst same
      by_cases unwanted : (w.rules.cell p).wantTcr = none
      · have cell : ((w.hears ⟨chainNo, prio, none⟩).setRule p fun rule => { rule with
            obj := { objRef rule.obj with state := .present }, haveTcr := none }).rules.cell p =
            { w.rules.cell p with
              obj := { objRef (w.rules.cell p).obj with state := .present }, haveTcr := none } := by
          rw [cell_setRule]
          rfl
        refine .settled ?_ fun present => ?_
        · rw [cell]
          exact unwanted
        · rw [cell] at present
          exact absurd rfl present
      · refine .updated ?_
        rw [Ghost.next_task, if_neg unwanted]
    · obtain ⟨alive, kept⟩ := other (rules_setRule ..) same
      exact ((before alive).of_report mirrored here alive chain position same).cell kept
  | discover idle search inPos inLaf => exact (mirrored.known rfl search).elim
  | @adopt _ _ r tcr idle search here present unwanted lost =>
    have kept := (mirrored.rules r here).notLost
    rw [lost] at kept
    cases kept
  | @place _ _ placed _ chainNo prio tcr idle search place inserted =>
    obtain ⟨⟨chainTree, rfl⟩, -⟩ := returns_iff.mp (schedBasicPlace_returns tcr w) _ place
    obtain ⟨-, linked, -, rfl⟩ := objRulePosInsert_alloc (w := { w with chainTree }) inserted
    by_cases same : p = w.rules.next
    · exact same ▸ .updated rfl
    · have kept : ∀ rule, (w.rules.alloc rule).cell p = w.rules.cell p := fun rule =>
        Heap.cell_alloc_ne _ _ same
      have alive : w.Live p := Eq.trans (congrArg (·.obj.kind) (kept _).symm) live
      exact ((before alive).of_request).cell (kept _)
  | decline idle _ _ _ => exact (before live).of_request
  | begin idle _ => exact (before live).of_free idle
  | aim _ _ _ => simp at alone
  | reaim _ _ _ => simp at alone
  | demand _ _ _ => simp at alone
  | plant _ _ => simp at alone
  | finish _ _ => simp at alone
  | shut idle _ => exact (before live).of_free idle

namespace Shaped

/-- A write that leaves a rule with nothing wanted, or with something of a known shape. -/
theorem modify (shaped : Shaped g w) {r : RuleId} {f : ObjRule → ObjRule}
    (rules : w'.rules = w.rules.modify r f)
    (want : ∀ tcr, w'.Live r → (f (w.rules.cell r)).wantTcr = some tcr → DaemonRule tcr)
    (asked : ∀ tcr, g'.task = some (.request tcr) → DaemonRule tcr) : Shaped g' w' where
  wants p live tcr here := by
    by_cases same : p = r
    · subst same
      rw [rules, Heap.cell_modify_same] at here
      exact want tcr live here
    · rw [World.Live, rules, Heap.cell_modify_ne _ _ same] at live
      rw [rules, Heap.cell_modify_ne _ _ same] at here
      exact shaped.wants p live tcr here
  asked := asked

/-- The rules stay as they are. -/
theorem keep (shaped : Shaped g w) (rules : w'.rules = w.rules)
    (asked : ∀ tcr, g'.task = some (.request tcr) → DaemonRule tcr) : Shaped g' w' where
  wants p live tcr here := by
    rw [World.Live, rules] at live
    rw [rules] at here
    exact shaped.wants p live tcr here
  asked := asked

/-- A new rule. -/
theorem alloc (shaped : Shaped g w) {rule : ObjRule} (rules : w'.rules = w.rules.alloc rule)
    (want : ∀ tcr, rule.wantTcr = some tcr → DaemonRule tcr)
    (asked : ∀ tcr, g'.task = some (.request tcr) → DaemonRule tcr) : Shaped g' w' where
  wants p live tcr here := by
    by_cases same : p = w.rules.next
    · rw [rules, same, Heap.cell_alloc_same] at here
      exact want tcr here
    · rw [World.Live, rules, Heap.cell_alloc_ne _ _ same] at live
      rw [rules, Heap.cell_alloc_ne _ _ same] at here
      exact shaped.wants p live tcr here
  asked := asked

end Shaped

/-- Every effect keeps the shapes of what is wanted. -/
theorem Effect.shaped (mirrored : Mirrored g w) (alone : g.installing = 0) (shaped : Shaped g w)
    (effect : Effect g w g' w') : Shaped g' w' := by
  have idle : ∀ {g : Ghost}, g.Free → ∀ tcr, g.task = some (.request tcr) → DaemonRule tcr :=
    fun free tcr task => absurd task (free.quiet.request tcr)
  cases effect with
  | @ref _ _ r here =>
    exact shaped.modify (rules_setRule ..) (fun tcr _ => shaped.wants r here tcr) shaped.asked
  | @unref _ _ r obj here _ =>
    exact shaped.modify (rules_setRule ..) (fun tcr _ => shaped.wants r here tcr) shaped.asked
  | unwant _ _ _ _ _ _ _ =>
    exact shaped.modify (rules_setRule ..) (fun tcr _ want => by cases want)
      fun tcr task => by cases task
  | @reap _ _ _ r free here _ reaped =>
    obtain ⟨rfl, -⟩ := objRuleReap_ok reaped
    have rules : (w.reaped r).rules = w.rules.modify r ObjRule.reaped := by
      simp [World.reaped, World.setRule]
    refine shaped.modify rules (fun tcr live => ?_) (idle free)
    rw [World.Live, rules, Heap.cell_modify_same] at live
    cases live
  | skip free _ => exact shaped.keep rfl (idle free)
  | @settle _ _ r _ free here _ _ _ =>
    exact shaped.modify (rules_setRule ..) (fun tcr _ => shaped.wants r here tcr) (idle free)
  | @confirm _ _ r _ free here _ _ _ _ _ =>
    exact shaped.modify (rules_setRule ..) (fun tcr _ => shaped.wants r here tcr) (idle free)
  | @schedule _ _ tca free here _ _ _ _ _ =>
    exact shaped.modify (w.rules_scheduled tca) (fun tcr _ => shaped.wants _ here tcr) (idle free)
  | @execute _ _ tca queue free _ here =>
    refine shaped.modify (w.rules_executed tca queue) (fun tcr _ => shaped.wants _ here tcr) ?_
    rw [Ghost.next_task, World.echo]
    intro tcr task
    split at task
    · obtain ⟨_, -, same⟩ := Option.map_eq_some_iff.mp task
      cases same
    · cases task
  | complete free _ => exact shaped.keep rfl (idle free)
  | leave free _ => exact shaped.keep rfl (idle free)
  | ignore free _ _ => exact shaped.keep rfl (idle free)
  | @found _ _ r _ _ _ _ _ here _ _ _ =>
    exact shaped.modify (rules_setRule ..) (fun tcr _ => shaped.wants r here tcr)
      fun tcr task => by cases task
  | @vanish _ _ r _ _ _ _ _ here =>
    refine shaped.modify (rules_setRule ..) (fun tcr _ => shaped.wants r here tcr) ?_
    rw [Ghost.next_task]
    intro tcr task
    split at task <;> cases task
  | discover idle search inPos inLaf => exact (mirrored.known rfl search).elim
  | @adopt _ _ r tcr _ _ _ _ _ _ =>
    refine shaped.modify (w.rules_adopted r tcr) (fun tcr' _ want => ?_) fun tcr task => by cases task
    cases want
    exact shaped.asked tcr rfl
  | @place _ _ placed _ chainNo prio tcr idle search place inserted =>
    obtain ⟨⟨chainTree, rfl⟩, -⟩ := returns_iff.mp (schedBasicPlace_returns tcr w) _ place
    obtain ⟨-, linked, -, rfl⟩ := objRulePosInsert_alloc (w := { w with chainTree }) inserted
    refine shaped.alloc rfl (fun tcr' want => ?_) fun tcr task => by cases task
    cases want
    exact shaped.asked tcr rfl
  | decline free _ _ _ => exact shaped.keep rfl (idle free)
  | begin _ _ => exact shaped.keep rfl shaped.asked
  | aim _ _ _ => simp at alone
  | reaim _ _ _ => simp at alone
  | demand _ _ _ => simp at alone
  | plant _ _ => simp at alone
  | finish _ _ => simp at alone
  | shut _ _ => exact shaped.keep rfl shaped.asked

/-- More events that are no requests. -/
theorem World.Obeyed.append (obeyed : w.Obeyed) {event : TcEvent}
    (other : ∀ tca filter want, event = .sent tca filter want → (tca.tcr ≠ none ↔ filter = none))
    (log : w'.log = w.log ++ [event]) : w'.Obeyed := by
  intro tca filter want member
  rw [log] at member
  rcases List.mem_append.mp member with before | new
  · exact obeyed tca filter want before
  · exact other tca filter want (List.mem_singleton.mp new).symm

/-- Every effect sends only requests that change the kernel. -/
theorem Effect.obeyed (mirrored : Mirrored g w) (obeyed : w.Obeyed)
    (effect : Effect g w g' w') : w'.Obeyed := by
  cases effect with
  | @reap _ _ _ r idle here reapable reaped =>
    obtain ⟨rfl, -⟩ := objRuleReap_ok reaped
    have same : (w.reaped r).log = w.log := by simp [World.reaped, World.setRule]
    rw [World.Obeyed, same]
    exact obeyed
  | schedule _ _ _ _ _ _ _ => exact obeyed.append (fun _ _ _ same => by cases same) rfl
  | @execute _ _ tca queue idle started here =>
    refine obeyed.append (fun other filter want same => ?_) rfl
    cases same
    have aims := mirrored.waits tca ((waiting_queueProcess started) ▸ List.mem_cons_self)
    have mirrors := mirrored.rules tca.data here
    rw [Ghost.Free] at idle
    rw [idle] at mirrors
    have same := mirrors.filter.resolve_right fun absent => by cases absent
    rw [aims.chainNo, aims.prio, same]
    exact aims.changes.symm
  | ignore _ _ _ => exact obeyed.append (fun _ _ _ same => by cases same) rfl
  | found _ _ _ _ _ _ => exact obeyed.append (fun _ _ _ same => by cases same) rfl
  | vanish _ _ _ => exact obeyed.append (fun _ _ _ same => by cases same) rfl
  | discover idle search inPos inLaf => exact (mirrored.known rfl search).elim
  | @adopt _ _ r tcr idle search here present unwanted lost =>
    have kept := (mirrored.rules r here).notLost
    rw [lost] at kept
    cases kept
  | @place _ _ placed _ chainNo prio tcr idle search place inserted =>
    obtain ⟨⟨chainTree, rfl⟩, -⟩ := returns_iff.mp (schedBasicPlace_returns tcr w) _ place
    obtain ⟨-, linked, -, rfl⟩ := objRulePosInsert_alloc (w := { w with chainTree }) inserted
    exact obeyed
  | ref | unref | unwant | skip | settle | confirm | complete | leave | decline | begin | aim
  | reaim | demand | plant | finish | shut => exact obeyed

/-- No effect brings a rule into the positional tree, but the placement of a request. -/
theorem Effect.fewer (mirrored : Mirrored g w) (unasked : ∀ tcr, g.task ≠ some (.request tcr))
    (effect : Effect g w g' w') : w'.posTree.toList.Sublist w.posTree.toList := by
  cases effect with
  | @reap _ _ _ r idle here reapable reaped =>
    obtain ⟨rfl, -⟩ := objRuleReap_ok reaped
    by_cases flag : (w.rules.cell r).havePos = true
    · simp [World.reaped, flag, w.balancing.erase_toList, List.erase_sublist]
    · simp [World.reaped, flag]
  | discover idle search inPos inLaf => exact (mirrored.known rfl search).elim
  | adopt idle search here present unwanted lost => exact absurd rfl (unasked _)
  | place idle search place inserted => exact absurd rfl (unasked _)
  | ref | unref | unwant | skip | settle | confirm | schedule | execute | complete | leave
  | ignore | found | vanish | decline | begin | aim | reaim | demand | plant | finish | shut =>
    exact List.Sublist.refl _

/-- Without a route being installed, no effect asks for a request. -/
theorem Effect.unasked (alone : g.installing = 0) (unasked : ∀ tcr, g.task ≠ some (.request tcr))
    (effect : Effect g w g' w') (tcr : TcRule) : g'.task ≠ some (.request tcr) := by
  cases effect with
  | ref _ => exact unasked tcr
  | unref _ _ => exact unasked tcr
  | unwant | found | discover | adopt | place =>
    intro task
    cases task
  | reap _ _ _ _ => exact unasked tcr
  | skip idle _ => exact idle.quiet.request tcr
  | settle idle _ _ _ _ => exact idle.quiet.request tcr
  | confirm idle _ _ _ _ _ _ => exact idle.quiet.request tcr
  | schedule idle _ _ _ _ _ _ => exact idle.quiet.request tcr
  | execute _ _ _ =>
    rw [Ghost.next_task, World.echo]
    intro task
    split at task
    · obtain ⟨_, -, same⟩ := Option.map_eq_some_iff.mp task
      cases same
    · cases task
  | complete idle _ => exact idle.quiet.request tcr
  | leave idle _ => exact idle.quiet.request tcr
  | ignore idle _ _ => exact idle.quiet.request tcr
  | vanish _ _ _ =>
    rw [Ghost.next_task]
    intro task
    split at task <;> cases task
  | decline idle _ _ _ => exact idle.quiet.request tcr
  | begin _ _ => exact unasked tcr
  | aim _ _ _ => simp at alone
  | reaim _ _ _ => simp at alone
  | demand _ _ _ => simp at alone
  | plant _ _ => simp at alone
  | finish _ _ => simp at alone
  | shut _ _ => exact unasked tcr

end Preservation

/-- The calls that the owners of rules make, for rules of the daemon's shapes. -/
inductive RuleEvent.Owned : RuleEvent → Prop
  | staticWant (chainNo : UInt32) (prio : UInt16) (tcr : TcRule) (shape : DaemonRule tcr) :
      Owned (.staticWant chainNo prio tcr)
  | request (tcr : TcRule) (shape : DaemonRule tcr) : Owned (.request tcr)
  | uninstall (r : RuleId) : Owned (.uninstall r)
  | ref (r : RuleId) : Owned (.ref r)
  | unref (r : RuleId) : Owned (.unref r)
  | removePin : Owned .removePin

/-- The owners make calls, where the rules that they request fit, or a chain is reported. -/
def ChainEvent.Owned (s : Owners) (e : ChainEvent) : Prop :=
  e.Fits True s ∧ ∀ event, e = .rule event → event.Owned

section Runs

variable {visited : RuleId → Prop} {members : List RuleId} {g g' : Ghost} {w w' : World}

namespace Synchronised

/-- A rule that is placed comes to a free position. -/
theorem places (sync : Synchronised visited g w) (tcr : TcRule) (chainNo : UInt32) (prio : UInt16)
    (placed : World) (task : g.task = some (.request tcr))
    (search : objRuleLafLookup tcr w = .ok none)
    (place : schedBasicPlace tcr w = .ok (some (chainNo, prio), placed)) :
    Small chainNo ∧ objRulePosLookup chainNo prio w = .ok none := by
  have positioned := sync.stationed.positioned
  obtain ⟨-, small, free⟩ := (positioned.requested tcr task search).place positioned place
  exact ⟨small, positioned.placed.absent (free trivial)⟩

/-- Every effect keeps what the rules have and want. -/
theorem effect (sync : Synchronised visited g w) (effect : Effect g w g' w') :
    Synchronised visited g' w' := by
  have places := sync.places
  obtain ⟨stationed, mirrored, shaped, obeyed, synced⟩ := sync
  have orderly := stationed.orderly
  refine ⟨keeps_stationed.kept stationed effect, effect.mirrored orderly.sound mirrored places,
    effect.shaped mirrored orderly.alone.installing shaped, effect.obeyed mirrored obeyed, ?_⟩
  intro removed p live seen
  rw [effect.sameObjects.pinChanges] at removed
  exact effect.syncs mirrored orderly.alone.installing removed live fun before =>
    synced removed p before seen

/-- The pin moves on, and what is known of the rules has to be found out again. -/
theorem raise {s : Owners} (sync : Synchronised visited s.ghost w) {pin : Nat} (nonzero : pin ≠ 0) :
    Synchronised (fun _ => False) s.ghost { w with pinChanges := pin } where
  stationed := (unpins_stationed s).raise pin nonzero sync.stationed
  mirrored := sync.mirrored.keep rfl rfl rfl rfl rfl sync.mirrored.rules fun _ task => task
  shaped := sync.shaped.keep rfl sync.shaped.asked
  obeyed := sync.obeyed
  synced _ _ _ seen := seen.elim

end Synchronised

/-- Every effect of a run keeps what the rules have and want. -/
theorem keeps_synchronised : Keeps (Synchronised visited) where
  sound sync := sync.stationed.orderly.sound
  kept sync effect := sync.effect effect

/-- So does every effect of a pass, and none makes a rule. -/
theorem keeps_passing : Keeps (Passing members visited) where
  sound passing := passing.stationed.orderly.sound
  kept passing effect := by
    obtain ⟨sync, fewer, unasked⟩ := passing
    refine ⟨sync.effect effect, ?_, effect.unasked sync.stationed.orderly.alone.installing unasked⟩
    exact (effect.fewer sync.mirrored unasked).trans fewer

/-- A pass comes to a rule of the tree. -/
theorem Synchronised.visit {s : Owners} (sync : Synchronised visited s.ghost w) {r : RuleId}
    (inside : r ∈ w.posTree.toList) :
    Passing w.posTree.toList (fun p => visited p ∨ p = r) (s.ghost.ask (.update r)) w := by
  have quiet := Ghost.quiet_update s.ghost r
  refine ⟨⟨(unpins_stationed s).visit r inside sync.stationed, ?_,
    sync.shaped.keep rfl fun tcr task => (by cases task), sync.obeyed,
    fun removed p live seen => ?_⟩, List.Sublist.refl _, quiet.request⟩
  · refine sync.mirrored.keep rfl rfl rfl rfl rfl (fun p live => ?_) fun note task => ?_
    · exact (sync.mirrored.rules p live).of_free _
    · exact absurd task (quiet.report note)
  · rcases seen with before | rfl
    · exact (sync.synced removed p live before).of_free rfl
    · exact .updated rfl

/-- Where a pass is after it updated a rule: the rules before the next one are those from before,
and the rule itself. -/
theorem pass_split {before after rest : List RuleId} {r : RuleId}
    (nodup : (before ++ r :: after).Nodup) (fewer : rest.Sublist (before ++ r :: after))
    (inside : r ∈ rest) : ∃ before' after', rest = before' ++ r :: after' ∧
      (∀ p ∈ before', p ∈ before) ∧ r ∉ before' := by
  obtain ⟨before', after', rfl, first, second⟩ := List.sublist_append_iff.mp fewer
  have apart : r ∉ before' := fun member => by
    have disjoint := (List.nodup_append.mp nodup).2.2
    exact disjoint r (first.subset member) r List.mem_cons_self rfl
  have later : r ∈ after' := (List.mem_append.mp inside).resolve_left apart
  rcases List.sublist_cons_iff.mp second with without | ⟨after', rfl, -⟩
  · have once := (List.nodup_cons.mp (List.nodup_append.mp nodup).2.1).1
    exact absurd (without.subset later) once
  · exact ⟨before', after', rfl, first.subset, apart⟩

/-- A pass that is through has visited every rule. -/
theorem Synchronised.through {before : List RuleId} (sync : Synchronised (· ∈ before) g w)
    (sequence : w.posTree.toList = before) : Synchronised (fun _ => True) g w where
  stationed := sync.stationed
  mirrored := sync.mirrored
  shaped := sync.shaped
  obeyed := sync.obeyed
  synced removed r live _ := sync.synced removed r live (sequence ▸ sync.mirrored.inside r live)

/-- A pass of `obj_rule_remove_pin` visits every rule that is left in the tree. -/
theorem objRuleRemovePinPass_synchronised (s : Owners) (depth rounds : Nat)
    {before rest : List RuleId} (sequence : w.posTree.toList = before ++ rest)
    (sync : Synchronised (· ∈ before) s.ghost w) :
    Ends Admitted (fun w' => Synchronised (fun _ => True) s.ghost w' ∧
        w'.pinChanges = w.pinChanges)
      (objRuleRemovePinPass (calls depth) rounds rest.head? w) := by
  induction rounds generalizing before rest w with
  | zero =>
    cases rest with
    | nil => exact ⟨sync.through (sequence.trans (List.append_nil before)), rfl⟩
    | cons r rest => exact Fault.noConfusion
  | succ rounds ih =>
    cases rest with
    | nil => exact ⟨sync.through (sequence.trans (List.append_nil before)), rfl⟩
    | cons r after =>
      have inside : r ∈ w.posTree.toList := by simp [sequence]
      have visit := sync.visit inside
      have called := (calls_effectful keeps_passing depth).updateState w r s.ready visit
      refine Ends.bind called fun w' effects => ?_
      have passed := effects.kept keeps_passing visit
      have nodup := sync.mirrored.placed.nodup
      refine ends_bind_of (faults_bind (clean_rule r) fun _ => trivial) fun next found => ?_
      obtain ⟨_, followed, same⟩ := bind_returned found
      have fewer := passed.fewer
      rw [sequence] at nodup fewer
      obtain ⟨before', after', sequence', old, apart⟩ :=
        pass_split nodup fewer (passed.mirrored.inside r (rule_ok followed).1)
      have later : next = after'.head? := by
        cases same
        exact SearchTree.next_of_split sequence' apart
      rw [later]
      have again : w'.posTree.toList = (before' ++ [r]) ++ after' := by simp [sequence']
      refine (ih again ?_).mono
        fun w'' ⟨sync, same⟩ => ⟨sync, by rw [same, effects.sameObjects.pinChanges]⟩
      refine ⟨passed.stationed, passed.mirrored, passed.shaped, passed.obeyed,
        fun removed p live seen => ?_⟩
      refine passed.synced removed p live ?_
      rcases List.mem_append.mp seen with member | new
      · exact .inl (old p member)
      · exact .inr (List.mem_singleton.mp new)

/-- `obj_rule_remove_pin` leaves every rule with what it wants, or with something under way. -/
theorem objRuleRemovePin_synchronised (s : Owners) (depth rounds : Nat)
    (pinned : w.pinChanges = 0) (sync : Synchronised visited s.ghost w) :
    Ends Admitted (fun w' => Synchronised (fun _ => True) s.ghost w' ∧ w'.pinChanges = 3)
      (objRuleRemovePin (calls depth) rounds w) := by
  -- each pass starts with nothing known, and comes to every rule
  have pass : ∀ (w : World) (pin : Nat), Synchronised (fun _ => False) s.ghost
      { w with pinChanges := pin } → Ends Admitted
        (fun w' => Synchronised (fun _ => True) s.ghost w' ∧ w'.pinChanges = pin)
        (objRuleRemovePinPass (calls depth) rounds w.posTree.toList.head?
          { w with pinChanges := pin }) := fun w pin sync =>
    objRuleRemovePinPass_synchronised (w := { w with pinChanges := pin }) s depth rounds
      (List.nil_append _).symm
      ⟨sync.stationed, sync.mirrored, sync.shaped, sync.obeyed,
        fun _ _ _ member => absurd member List.not_mem_nil⟩
  have same : { w with pinChanges := 0 } = w := by rw [← pinned]
  rw [objRuleRemovePin, if_neg (by omega)]
  simp only [List.foldlM_cons, List.foldlM_nil, bind_pure]
  refine Ends.bind (pass w 0 ?_) fun w₀ first => ?_
  · rw [same]
    exact ⟨sync.stationed, sync.mirrored, sync.shaped, sync.obeyed, fun _ _ _ seen => seen.elim⟩
  refine Ends.bind (pass w₀ 1 (first.1.raise Nat.one_ne_zero)) fun w₁ second => ?_
  refine Ends.bind (pass w₁ 2 (second.1.raise (by decide))) fun w₂ third => ?_
  exact pass w₂ 3 (third.1.raise (by decide))

/-- A static rule comes to a free position. -/
theorem Synchronised.staticWant {s : Owners} (sync : Synchronised visited s.ghost s.world)
    {chainNo : UInt32} {prio : UInt16} {tcr : TcRule} (bound : chainNo.toNat < 2 ^ 28)
    (shape : DaemonRule tcr) (search : objRulePosLookup chainNo prio s.world = .ok none)
    (inserted : objRulePosInsert s.world.rules.next (objRuleAlloc {
      chainNo, prio, type := .static, wantTcr := some tcr } s.world).2 = .ok w) :
    Synchronised visited (s.ghost.ask (.update s.world.rules.next)) w := by
  obtain ⟨stationed, mirrored, shaped, obeyed, synced⟩ := sync
  have sound := stationed.orderly.sound
  have alive : ∀ r, s.world.Live r → r < s.world.rules.next := fun r live =>
    (sound.counts.alive r live).2
  refine ⟨carries_stationed.staticWant stationed bound search inserted, ?_, ?_, ?_, ?_⟩
  · obtain ⟨-, linked, link, rfl⟩ := objRulePosInsert_alloc inserted
    obtain ⟨new, success⟩ := mirrored.placed.link alive search
      (show (objRuleAlloc { chainNo, prio, type := .static, wantTcr := some tcr } s.world).2.rules =
        _ from rfl) s.world.rules.next
    have same : linked = some new := Except.ok.inj (link.symm.trans success)
    subst same
    refine mirrored.alloc alive rfl rfl rfl rfl rfl
      (fun tca member => alive _ (sound.counts.live_waiting member)) rfl (small_of_lt bound) link
      rfl ?_ ⟨rfl, fun present => absurd rfl present, .inl (mirrored.empty search)⟩
      (fun r live => (mirrored.rules r live).of_free _) fun note task => by cases task
    exact s.world.balancing.insertColor_toList ..
  · obtain ⟨-, linked, -, rfl⟩ := objRulePosInsert_alloc inserted
    refine shaped.alloc rfl (fun tcr' want => ?_) fun tcr task => by cases task
    cases want
    exact shape
  · obtain ⟨-, linked, -, rfl⟩ := objRulePosInsert_alloc inserted
    exact obeyed
  · obtain ⟨-, linked, -, rfl⟩ := objRulePosInsert_alloc inserted
    intro removed r live seen
    by_cases same : r = s.world.rules.next
    · exact same ▸ .updated rfl
    · have kept : ∀ rule, (s.world.rules.alloc rule).cell r = s.world.rules.cell r := fun rule =>
        Heap.cell_alloc_ne _ _ same
      have before : s.world.Live r := Eq.trans (congrArg (·.obj.kind) (kept _).symm) live
      exact ((synced removed r before seen).of_free rfl).cell (kept _)

/-- A rule is not wanted any more. -/
theorem Synchronised.uninstall {s : Owners} (sync : Synchronised visited s.ghost s.world)
    {r : RuleId} (live : s.world.Live r) : Synchronised visited (s.ghost.ask (.update r))
      (s.world.setRule r fun rule => { rule with wantTcr := none }) := by
  obtain ⟨stationed, mirrored, shaped, obeyed, synced⟩ := sync
  have fits : RuleEvent.Fits True s (.uninstall r) := trivial
  have still : ∀ p, s.world.Live p → (s.world.rules.cell p).Mirrors (some (.update r))
      s.world.kernel := fun p live => (mirrored.rules p live).of_free _
  have unwanted : Shaped (s.ghost.ask (.update r))
      (s.world.setRule r fun rule => { rule with wantTcr := none }) :=
    shaped.modify (rules_setRule ..) (fun tcr _ want => by cases want) fun tcr task => by cases task
  refine ⟨carries_stationed.uninstall stationed fits live, ?_, unwanted, obeyed,
    fun removed p here seen => ?_⟩
  · refine mirrored.write (fun _ => ⟨rfl, rfl, rfl⟩) (fun _ => rfl) live live ?_
      (fun p _ => still p) fun note task => by cases task
    exact (still r live).congr rfl rfl rfl rfl rfl
  · by_cases same : p = r
    · exact same ▸ .updated rfl
    · rw [World.Live, rules_setRule, Heap.cell_modify_ne _ _ same] at here
      refine ((synced removed p here seen).of_free rfl).cell ?_
      rw [rules_setRule, Heap.cell_modify_ne _ _ same]

/-- The first move of every call keeps what the rules have and want. -/
theorem carries_synchronised : Carries (fun s e => e.Fits True s ∧ e.Owned)
    (Synchronised fun _ => True) where
  toKeeps := keeps_synchronised
  staticWant sync good search inserted := by
    obtain ⟨bound, owned⟩ := good
    cases owned with
    | staticWant _ _ _ shape => exact sync.staticWant bound shape search inserted
  request {s tcr} sync good := by
    obtain ⟨stationed, mirrored, shaped, obeyed, synced⟩ := sync
    have requested : Shaped (s.ghost.ask (.request tcr)) s.world :=
      shaped.keep rfl fun other task => by
        cases task
        cases good.2 with
        | request _ shape => exact shape
    refine ⟨carries_stationed.request stationed good.1, ?_, requested, obeyed,
      fun removed r live seen => ?_⟩
    · refine mirrored.keep rfl rfl rfl rfl rfl (fun r live => ?_) fun note task => ?_
      · exact (mirrored.rules r live).of_free _
      · cases task
    · exact (synced removed r live seen).of_free rfl
  uninstall sync _ live := sync.uninstall live
  removePin {s} bound sync _ pinned := objRuleRemovePin_synchronised s bound bound pinned sync
  message _ good := nomatch good.2
  completed _ good := nomatch good.2
  notified _ good := nomatch good.2
  foreign _ good := nomatch good.2
  echoing _ good := nomatch good.2

/-- A call of an owner leaves the queue at rest. -/
theorem RuleEvent.run_calmed {s : Owners} {e : RuleEvent} (owned : e.Owned)
    (echoes : s.world.kernel.echoes = true) (bound : Nat) :
    Returns (fun s' => Calmed s.world s'.world) (e.run bound s) := by
  have calms := calls_calms bound
  cases owned with
  | staticWant chainNo prio tcr _ =>
    exact Ends.bind (objRuleStaticWant_calmed calms chainNo prio tcr echoes) fun _ calmed => calmed
  | request tcr _ =>
    refine Ends.bind (objRuleRequest_calmed calms tcr echoes) fun ⟨r, _⟩ calmed => ?_
    cases r with
    | none => exact calmed
    | some r => exact calmed
  | uninstall r => exact Ends.bind (objRuleUninstall_calmed calms r echoes) fun _ calmed => calmed
  | ref r => exact Ends.bind (objRuleRef_calmed r s.world) fun _ calmed => calmed
  | unref r => exact Ends.bind (objRuleUnref_calmed calms r echoes) fun _ calmed => calmed
  | removePin =>
    exact Ends.bind (objRuleRemovePin_calmed calms bound echoes) fun _ calmed => calmed

/-- Between two events of a run the rules have what they want, and nothing waits. -/
structure AtRest (s : Owners) : Prop where
  between : Between (Synchronised fun _ => True) s
  idle : s.world.queue.isBusy = false
  still : Still s.world

/-- A blank world under a kernel without filters that reports inside the call. -/
theorem World.Blank.synchronised (blank : w.Blank) (normal : w.mode = .normal)
    (echoes : w.kernel.echoes = true)
    (kernel : ∀ chainNo prio, w.kernel.filters chainNo prio = none) :
    Synchronised (fun _ => True) {} w := by
  have dead : ∀ r, ¬ w.Live r := fun r live => by
    rw [World.Live, blank.rules] at live
    cases live
  have stationed : Stationed True {} w := blank.stationed
  have positioned := stationed.positioned
  refine ⟨stationed, ⟨echoes, normal, positioned.placed, positioned.flagged, positioned.small,
    fun r live => absurd live (dead r), fun r live => absurd live (dead r), ?_, ?_, ?_⟩,
    ⟨fun r live => absurd live (dead r), fun _ task => by cases task⟩, ?_,
    fun _ r live => absurd live (dead r)⟩
  · obtain ⟨conn, queue⟩ := blank.queue
    rw [World.waiting, queue]
    exact fun _ member => absurd member List.not_mem_nil
  · intro note task
    cases task
  · exact fun chainNo prio present => absurd (kernel chainNo prio) present
  · rw [World.Obeyed, blank.log]
    exact fun _ _ _ member => absurd member List.not_mem_nil

/-- The reports of chains leave the rules alone. -/
theorem Synchronised.gotChain {s : Owners} (sync : Synchronised visited s.ghost w)
    {chainNo : UInt32} (bound : chainNo.toNat < 2 ^ 28) (got : filterGotChain chainNo w = .ok w') :
    Synchronised visited s.ghost w' ∧ w'.queue = w.queue ∧ w'.pinChanges = w.pinChanges := by
  obtain ⟨stationed, mirrored, shaped, obeyed, synced⟩ := sync
  obtain ⟨chainTree, rfl, -⟩ := stationed.positioned.chained.gotChain bound got
  have free : s.ghost.Free := rfl
  refine ⟨⟨(stationed.gotChain free bound got).1, ?_, shaped.keep rfl shaped.asked, obeyed,
    fun removed r live seen => ?_⟩, rfl, rfl⟩
  · exact mirrored.keep rfl rfl rfl rfl rfl mirrored.rules fun _ task => task
  · exact (synced removed r live seen).cell rfl

/-- Every event of a run leaves the rules at rest. -/
theorem Owners.ChainReached.atRest {s : Owners} (blank : w.Blank) (normal : w.mode = .normal)
    (echoes : w.kernel.echoes = true)
    (kernel : ∀ chainNo prio, w.kernel.filters chainNo prio = none)
    (reached : ChainReached (fun s e => e.Owned s) w s) : AtRest s := by
  induction reached with
  | start =>
    obtain ⟨conn, queue⟩ := blank.queue
    refine ⟨⟨blank.synchronised normal echoes kernel, .inl blank.pinChanges⟩, ?_, fun _ => ?_⟩
    · rw [queue]
    · rw [World.waiting, queue]
      rfl
  | @step s s' e _ _ allowed owned ran ih =>
    obtain ⟨between, idle, still⟩ := ih
    cases e with
    | rule e =>
      have both := (RuleEvent.run_keeps carries_synchronised allowed
        ⟨owned.1, owned.2 e rfl⟩ between _).of_ok ran
      have calmed := (RuleEvent.run_calmed (owned.2 e rfl) between.kept.mirrored.echoes _).of_ok ran
      exact ⟨both, calmed.busy.trans idle, calmed.still still⟩
    | gotChain chainNo =>
      obtain ⟨w', got, ran⟩ := bind_returned ran
      cases ran
      obtain ⟨kept, queue, same⟩ := between.kept.gotChain owned.1 got
      refine ⟨⟨kept, same ▸ between.pins⟩, ?_, ?_⟩
      · rw [queue]
        exact idle
      · rw [Still, World.waiting, queue]
        exact still

/-- A rule at rest has what it wants. -/
theorem AtRest.settled {s : Owners} (rest : AtRest s) (removed : s.world.pinChanges = 3)
    {r : RuleId} (live : s.world.Live r) :
    (s.world.rules.cell r).wantTcr = (s.world.rules.cell r).haveTcr ∧
      ((s.world.rules.cell r).haveTcr ≠ none → (s.world.rules.cell r).state = .ok) := by
  obtain ⟨⟨sync, -⟩, idle, still⟩ := rest
  cases sync.synced removed r live trivial with
  | settled same state => exact ⟨same, state⟩
  | queued state =>
    obtain ⟨tca, member, -⟩ := sync.stationed.orderly.states.queued r state
    rw [still idle] at member
    cases member
  | updated task => cases task
  | reported note task => cases task

end Runs

/-- Between two events of every run in which only the owners of rules change anything, the kernel's
filters are what the live rules have, no request was refused and nothing waits, and what a rule
wants is decoded as it is encoded. Once the pins are removed, the kernel's filters are what the live
rules want. -/
theorem rules_synchronised {w : World} (blank : w.Blank) (normal : w.mode = .normal)
    (echoes : w.kernel.echoes = true)
    (kernel : ∀ chainNo prio, w.kernel.filters chainNo prio = none) {s : Owners}
    (reached : Owners.ChainReached (fun s e => e.Owned s) w s) :
    s.world.waiting = [] ∧ s.world.Obeyed ∧
    (∀ r, s.world.Live r → ∀ tcr, (s.world.rules.cell r).wantTcr = some tcr →
      RoundTrips s.world.config.ifidx (s.world.rules.cell r).chainNo (s.world.rules.cell r).prio
        tcr) ∧
    (∀ chainNo prio tcr, s.world.kernel.filters chainNo prio = some tcr ↔
      ∃ r, s.world.Live r ∧ (s.world.rules.cell r).chainNo = chainNo ∧
        (s.world.rules.cell r).prio = prio ∧ (s.world.rules.cell r).haveTcr = some tcr) ∧
    (s.world.pinChanges ≠ 0 →
      (∀ chainNo prio tcr, s.world.kernel.filters chainNo prio = some tcr ↔
        ∃ r, s.world.Live r ∧ (s.world.rules.cell r).chainNo = chainNo ∧
          (s.world.rules.cell r).prio = prio ∧ (s.world.rules.cell r).wantTcr = some tcr) ∧
      ∀ r, s.world.Live r → (s.world.rules.cell r).haveTcr ≠ none →
        (s.world.rules.cell r).state = .ok) := by
  have rest := reached.atRest blank normal echoes kernel
  have sync := rest.between.kept
  have same : ∀ r, s.world.Live r → s.world.kernel.filters (s.world.rules.cell r).chainNo
      (s.world.rules.cell r).prio = (s.world.rules.cell r).haveTcr := fun r live =>
    (sync.mirrored.rules r live).filter.resolve_right fun task => by cases task
  have mirror : ∀ chainNo prio tcr, s.world.kernel.filters chainNo prio = some tcr ↔
      ∃ r, s.world.Live r ∧ (s.world.rules.cell r).chainNo = chainNo ∧
        (s.world.rules.cell r).prio = prio ∧ (s.world.rules.cell r).haveTcr = some tcr := by
    intro chainNo prio tcr
    constructor
    · intro here
      obtain ⟨r, live, rfl, rfl⟩ := sync.mirrored.covered chainNo prio (by simp [here])
      exact ⟨r, live, rfl, rfl, (same r live).symm.trans here⟩
    · rintro ⟨r, live, rfl, rfl, has⟩
      exact (same r live).trans has
  refine ⟨rest.still rest.idle, sync.obeyed, fun r live tcr want =>
    (sync.shaped.wants r live tcr want).roundTrips _ _ _, mirror, fun removed => ?_⟩
  have settled := fun r => rest.settled (r := r) (rest.between.pins.resolve_left removed)
  refine ⟨fun chainNo prio tcr => (mirror chainNo prio tcr).trans (exists_congr fun r => ?_),
    fun r live => (settled r live).2⟩
  refine and_congr_right fun live => and_congr_right fun _ => and_congr_right fun _ => ?_
  rw [(settled r live).1]

theorem ttlCheckRule_shape : DaemonRule ttlCheckRule := .ttlCheck (.inl rfl) rfl

theorem gotoPrefix_shape : DaemonRule (gotoPrefix 0x0a000000 8) :=
  .routeGoto (by decide)
    (.inl (@RoutePrefix.v4 (some (0x0a000000#32 ++ 0#96)) 8 _ (by decide) (by decide) rfl)) rfl

set_option maxRecDepth 20000 in
/-- The run wants a static rule, removes the pins and requests a ROUTE_GOTO rule. -/
theorem rules_synchronised_beside_static : ∃ s,
    Owners.chainPlay 9 [.rule (.staticWant 1 1 ttlCheckRule), .rule .removePin,
      .rule (.request (gotoPrefix 0x0a000000 8))] { world := echoingWorld } = .ok s ∧
    s.world.Obeyed ∧ s.world.kernel.filters 1 1 = some ttlCheckRule ∧
    s.world.kernel.filters 1 100 = some (gotoPrefix 0x0a000000 8) := by
  obtain ⟨s₁, played, next, prio, s, ran, both, removed, live, chain, position, want, live',
      chain', position', want'⟩ : ∃ s₁,
      Owners.chainPlay 9 [.rule (.staticWant 1 1 ttlCheckRule), .rule .removePin]
        { world := echoingWorld } = .ok s₁ ∧
      s₁.world.rules.next = 1 ∧ (s₁.world.rules.cell 0).prio = 1 ∧
      ∃ s, ChainEvent.run 9 s₁ (.rule (.request (gotoPrefix 0x0a000000 8))) = .ok s ∧
        Owners.chainPlay 9 [.rule (.staticWant 1 1 ttlCheckRule), .rule .removePin,
          .rule (.request (gotoPrefix 0x0a000000 8))] { world := echoingWorld } = .ok s ∧
        s.world.pinChanges = 3 ∧
        (s.world.rules.cell 0).obj.kind = .rule ∧ (s.world.rules.cell 0).chainNo = 1 ∧
        (s.world.rules.cell 0).prio = 1 ∧
        (s.world.rules.cell 0).wantTcr = some ttlCheckRule ∧
        (s.world.rules.cell 1).obj.kind = .rule ∧ (s.world.rules.cell 1).chainNo = 1 ∧
        (s.world.rules.cell 1).prio = 100 ∧
        (s.world.rules.cell 1).wantTcr = some (gotoPrefix 0x0a000000 8) :=
    ⟨_, rfl, rfl, rfl, _, rfl, rfl, rfl, rfl, rfl, rfl, rfl, rfl, rfl, rfl, rfl⟩
  have reached₁ : Owners.ChainReached (fun s e => e.Owned s) echoingWorld s₁ := by
    refine Owners.chainPlay_reached .start (fun s e inside => ?_) played
    simp only [List.mem_cons, List.not_mem_nil, or_false] at inside
    rcases inside with rfl | rfl
    · exact ⟨(by decide : (1 : UInt32).toNat < 2 ^ 28), fun event same => by
        cases same; exact .staticWant _ _ _ ttlCheckRule_shape⟩
    · exact ⟨trivial, fun event same => by cases same; exact .removePin⟩
  have rest := reached₁.atRest echoingWorld_blank rfl rfl fun _ _ => rfl
  have bound := rest.between.kept.stationed.orderly.sound.counts.alive
  -- the static rule does not take the position of the first ROUTE_GOTO rule
  have owned : ChainEvent.Owned s₁ (.rule (.request (gotoPrefix 0x0a000000 8))) := by
    refine ⟨fun _ => ⟨fun type => (by cases type), fun _ _ ch _ => ?_⟩,
      fun event same => by cases same; exact .request _ gotoPrefix_shape⟩
    refine ⟨100, by decide, ?_⟩
    rintro ⟨r, live, -, position⟩
    have zero : r = 0 := Nat.lt_one_iff.mp (next ▸ (bound r live).2)
    rw [zero, prio] at position
    exact absurd position (by decide)
  have allowed : ChainEvent.Allowed s₁ (.rule (.request (gotoPrefix 0x0a000000 8))) := trivial
  have reached := reached₁.step allowed owned ran
  obtain ⟨-, obeyed, -, -, wanted⟩ :=
    rules_synchronised echoingWorld_blank rfl rfl (fun _ _ => rfl) reached
  have wanted := (wanted (removed ▸ by decide)).1
  refine ⟨s, both, obeyed, ?_, ?_⟩
  · exact (wanted 1 1 _).mpr ⟨0, live, chain, position, want⟩
  · exact (wanted 1 100 _).mpr ⟨1, live', chain', position', want'⟩

end FlowerRoute
