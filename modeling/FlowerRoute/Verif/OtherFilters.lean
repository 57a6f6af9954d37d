import FlowerRoute.Verif.FilterMessages
import FlowerRoute.Verif.History
import FlowerRoute.Verif.Positions
import FlowerRoute.Verif.StateMachine

/-!
# Filters of others

When the filter messages of other interfaces leave a run as it would have been without them.
`decode_filter` looks neither at the interface of a filter nor at its parent, so this depends on
what such a message says about a position, and on what is known there.
-/

namespace FlowerRoute

open Tlv Outcome

section Messages

/-- A filter message of another interface, or of another parent than the one that the daemon
installs under. -/
def Nlmsg.Foreign (config : Config) (nlh : Nlmsg) : Prop :=
  (nlh.type = rtmNewtfilter ∨ nlh.type = rtmDeltfilter) ∧
    (nlh.tcm.ifindex ≠ config.ifidx ∨ nlh.tcm.parent ≠ ingressParent)

instance (config : Config) (nlh : Nlmsg) : Decidable (nlh.Foreign config) :=
  inferInstanceAs (Decidable (_ ∧ _))

end Messages

section Stores

/-- Nothing but reports in the history has changed. -/
def Undisturbed (w w' : World) : Prop :=
  ∃ notes : List Note, w' = { w with log := w.log ++ notes.map .heard }

/-- `obj_rule_delete` changes nothing about a rule: it is reported absent already, somebody has a
reference to it, and `obj_rule_update_state` is not called or returns early. -/
structure World.Absent (w : World) (r : RuleId) : Prop where
  absent : (w.rules.cell r).haveTcr = none
  state : (w.rules.cell r).obj.state = .present
  referenced : (w.rules.cell r).obj.refcnt ≠ 0
  quiet : (w.rules.cell r).wantTcr = none ∨ w.pinChanges = 0 ∨ (w.rules.cell r).state = .queued

/-- Both trees can be searched: the positions are in order, and what was found can be read. -/
structure World.Searchable (w : World) : Prop where
  placed : Placed w
  readable : ∀ r ∈ w.lafTree.toList, w.Live r ∧ (w.rules.cell r).haveTcr ≠ none

/-- The positional tree has a rule at the position of a message. -/
def World.Holds (w : World) (nlh : Nlmsg) (r : RuleId) : Prop :=
  r ∈ w.posTree.toList ∧ (w.rules.cell r).chainNo = nlh.chainNo ∧ (w.rules.cell r).prio = nlh.prio

/-- What a filter message says is known already, or it is not one that is decoded. -/
inductive World.Ignores (w : World) (nlh : Nlmsg) : Prop
  | unhandled : nlh.tcm.handle = 0 → w.Ignores nlh
  | malformed : nlh.tcm.handle = 1 → nlh.Malformed → w.Ignores nlh
  /-- The removal of a filter where no rule is. -/
  | unknown : nlh.tcm.handle = 1 → nlh.Removal → w.Searchable →
      (∀ r, w.Live r → (w.rules.cell r).chainNo = nlh.chainNo →
        (w.rules.cell r).prio ≠ nlh.prio) → w.Ignores nlh
  /-- The removal of a filter that a rule does not have. -/
  | absent {r : RuleId} : nlh.tcm.handle = 1 → nlh.Removal → w.Searchable → w.Holds nlh r →
      w.Absent r → w.Ignores nlh
  /-- A new filter that the rule there has. -/
  | known {r : RuleId} {tcr : TcRule} : nlh.tcm.handle = 1 → nlh.type = rtmNewtfilter →
      Valid tcAttrTypes nlh.attrs → nlh.Describes tcr → w.Searchable → w.Holds nlh r →
      (w.rules.cell r).haveTcr = some tcr → w.Ignores nlh

/-- The same with what is decoded and found. -/
def World.Knows (w : World) (nlh : Nlmsg) : Prop :=
  match tryDecodeFilter nlh with
  | .error (.fault _) => False
  | .error .callbackError => True
  | .ok tdr => tdr.isDone = true →
    match objRuleFind tdr.chainNo tdr.prio tdr.tcr w with
    | .error _ => False
    | .ok none => nlh.type = rtmDeltfilter
    | .ok (some r) => if nlh.type = rtmDeltfilter then w.Absent r
        else (w.rules.cell r).haveTcr = some tdr.tcr

namespace Undisturbed

variable {w w' : World}

theorem refl (w : World) : Undisturbed w w := ⟨[], by rw [List.map_nil, List.append_nil]⟩

theorem hears (w : World) (note : Note) : Undisturbed w (w.hears note) := ⟨[note], rfl⟩

theorem rules (undisturbed : Undisturbed w w') : w'.rules = w.rules := by
  obtain ⟨_, rfl⟩ := undisturbed
  rfl

theorem log (undisturbed : Undisturbed w w') :
    ∃ notes : List Note, w'.log = w.log ++ notes.map .heard := by
  obtain ⟨notes, rfl⟩ := undisturbed
  exact ⟨notes, rfl⟩

end Undisturbed

end Stores

section History

variable {held : Held} {g g' : Ghost} {w w' : World}

/-- An effect only adds to the history. -/
theorem Effect.log (effect : Effect g w g' w') : w.log <+: w'.log := by
  have same : w.log <+: w.log := List.prefix_rfl
  cases effect with
  | reap _ _ _ reaped =>
    obtain ⟨rfl, -⟩ := objRuleReap_ok reaped
    change w.log <+: (w.dropTarget _).log
    cases (w.rules.cell _).target <;> exact same
  | schedule _ _ _ _ _ _ _ => exact List.prefix_append _ _
  | execute _ _ _ => exact List.prefix_append _ _
  | ignore _ _ _ => exact List.prefix_append _ _
  | found _ _ _ _ _ _ => exact List.prefix_append _ _
  | vanish _ _ _ => exact List.prefix_append _ _
  | discover _ _ inPos inLaf =>
    obtain ⟨_, pos, laf, -, -, -, -, -, rfl⟩ := objRuleNew_alloc inPos inLaf
    exact List.prefix_append _ _
  | @place _ _ placed w' chainNo prio tcr _ _ place inserted =>
    obtain ⟨⟨chainTree, rfl⟩, -⟩ := returns_iff.mp (schedBasicPlace_returns tcr w) _ place
    obtain ⟨-, linked, -, rfl⟩ := objRulePosInsert_alloc (w := { w with chainTree }) inserted
    exact same
  | _ => exact same

/-- Effects only add to the history. -/
theorem Effects.log (effects : Effects held g w g' w') : w.log <+: w'.log :=
  effects.induct (fun _ w' => w.log <+: w'.log) List.prefix_rfl
    fun _ _ _ _ _ _ before effect => before.trans effect.log

/-- A queued action is no report. -/
theorem Undisturbed.not_queued (undisturbed : Undisturbed w w') {events : List TcEvent}
    {tca : TcAction} {filter : Option TcRule}
    (longer : w.log ++ (events ++ [.queued tca filter]) <+: w'.log) : False := by
  obtain ⟨rest, longer⟩ := longer
  obtain ⟨notes, log⟩ := undisturbed.log
  rw [log, List.append_assoc] at longer
  have heard : TcEvent.queued tca filter ∈ notes.map TcEvent.heard := by
    rw [← List.append_cancel_left longer]
    simp
  obtain ⟨_, -, event⟩ := List.mem_map.mp heard
  cases event

end History

section Quiet

variable {g : Ghost} {w w' : World} {r : RuleId} {depth : Nat}

/-- The two functions are sequences of effects in an orderly world. -/
theorem calls_orderly (depth : Nat) : (calls depth).Effectful Orderly :=
  calls_effectful keeps_orderly depth

/-- `queue_schedule` leaves a trace in the history. -/
theorem queueSchedule_log {tca : TcAction} (free : g.Free)
    (orderly : Orderly (g.ask (.update tca.data)) w)
    (effect : Effect (g.ask (.update tca.data)) w g (w.scheduled tca))
    (ran : queueSchedule (calls depth) tca (w.setRule tca.data fun rule =>
      { rule with state := .queued, obj := objRef rule.obj }) = .ok w') :
    ∃ filter, w.log ++ [.queued tca filter] <+: w'.log := by
  refine ⟨w.kernel.filters tca.chainNo tca.prio, ?_⟩
  rw [queueSchedule] at ran
  dsimp only at ran
  split at ran
  · cases ran
    exact List.prefix_rfl
  · have effects := ((calls_orderly depth).processLoop (w.scheduled tca) free.ready
      (keeps_orderly.kept orderly effect)).of_ok ran
    exact effects.log

/-- `obj_rule_update_state` queues an action or does no more than set the state. -/
theorem objRuleUpdateState_quiet (free : g.Free) (orderly : Orderly (g.ask (.update r)) w)
    (ran : (calls depth).objRuleUpdateState r w = .ok w') :
    (∃ tca filter, w.log ++ [.queued tca filter] <+: w'.log) ∨
      (Skips w.pinChanges (w.rules.cell r) ∧ w' = w) ∨
      ∃ state, Settles w.pinChanges (w.rules.cell r) state ∧ w.pinChanges ≠ 0 ∧
        w' = w.setRule r fun rule => { rule with state } := by
  obtain ⟨depth, ran⟩ := (calls_runs depth).updateState ran
  cases objRuleUpdateState_updated ran with
  | skipped skips same => exact .inr (.inl ⟨skips, same⟩)
  | settled state removed _ _ settles same => exact .inr (.inr ⟨state, settles, removed, same⟩)
  | confirmed t _ _ _ _ _ target _ =>
    rw [orderly.alone.target r] at target
    cases target
  | scheduled tca here removed live idle chain prio requests queued =>
    subst here
    have effect := Effect.schedule free live removed idle chain prio requests
    exact .inl ⟨tca, queueSchedule_log free orderly effect queued⟩

/-- `obj_rule_update_state` returns early. -/
theorem objRuleUpdateState_skips {c : Calls} (live : w.Live r)
    (skips : w.pinChanges = 0 ∨ (w.rules.cell r).state = .queued) :
    objRuleUpdateState c r w = .ok w := by
  rw [objRuleUpdateState]
  by_cases pinned : w.pinChanges = 0
  · rw [if_pos pinned]
    rfl
  · rw [if_neg pinned, rule_live live, ok_bind, if_pos (skips.resolve_left pinned)]
    rfl

/-- The search of a report finds a rule that has not been reaped. -/
theorem objRuleFind_live {chainNo : UInt32} {prio : UInt16} {tcr : TcRule}
    (search : objRuleFind chainNo prio tcr w = .ok (some r)) : w.Live r := by
  obtain ⟨found, byPosition, search⟩ := bind_returned search
  cases found with
  | some p =>
    cases search
    exact (objRulePosLookup_some byPosition).2.1
  | none =>
    obtain ⟨found, byContent, search⟩ := bind_returned search
    cases found with
    | none => cases search
    | some p =>
      obtain ⟨rule, followed, search⟩ := bind_returned search
      have here : (if rule.chainNo ≠ chainNo ∨ rule.prio ≠ prio then none else some p) =
          some r := Except.ok.inj search
      split at here
      · cases here
      · cases here
        exact (rule_ok followed).1

end Quiet

section Reports

variable {g : Ghost} {w w' : World} {chainNo : UInt32} {prio : UInt16} {tcr : TcRule} {bound : Nat}

/-- A reported filter leaves the rules alone exactly when its rule is known to have it. -/
theorem objRuleNetlinkFound_undisturbed (free : g.Free) (orderly : Orderly g w) :
    (∃ w', objRuleNetlinkFound (calls bound) chainNo prio tcr w = .ok w' ∧ Undisturbed w w') ↔
      ∃ r, objRuleFind chainNo prio tcr w = .ok (some r) ∧
        (w.rules.cell r).haveTcr = some tcr := by
  constructor
  · rintro ⟨w', ran, undisturbed⟩
    have reported : Orderly (g.ask (.report ⟨chainNo, prio, some tcr⟩)) w :=
      orderly.keep rfl rfl rfl rfl rfl orderly.states.pinned free _
    rw [objRuleNetlinkFound, objRuleFind_hears] at ran
    obtain ⟨found, search, ran⟩ := bind_returned ran
    cases found with
    | none =>
      -- the new rule stays handed out
      obtain ⟨w₁, inPos, ran⟩ := bind_returned ran
      obtain ⟨w₂, inLaf, ran⟩ := bind_returned ran
      have effect := Effect.discover free search inPos inLaf
      have effects := ((calls_orderly bound).updateState w₂ _ free.ready
        (keeps_orderly.kept reported effect)).of_ok ran
      obtain ⟨_, _, _, -, -, -, -, -, rfl⟩ := objRuleNew_alloc inPos inLaf
      have next := effects.samePlaces.next
      rw [undisturbed.rules] at next
      exact absurd next (Nat.not_succ_le_self _)
    | some r =>
      refine ⟨r, search, ?_⟩
      by_contra changed
      have live := objRuleFind_live search
      obtain ⟨rule, followed, ran⟩ := bind_returned ran
      obtain ⟨-, rfl⟩ := rule_ok followed
      obtain ⟨_, chain, ran⟩ := bind_returned ran
      obtain ⟨_, position, ran⟩ := bind_returned ran
      rw [World.rules_hears, if_neg changed] at ran
      have effect := Effect.found free search live (of_require chain) (of_require position) changed
      have have' : (w'.rules.cell r).haveTcr ≠ some tcr := by
        rw [undisturbed.rules]
        exact changed
      rcases objRuleUpdateState_quiet free (keeps_orderly.kept reported effect) ran with
        ⟨tca, filter, longer⟩ | ⟨-, rfl⟩ | ⟨state, -, -, rfl⟩
      · have longer : w.log ++ ([.heard ⟨chainNo, prio, some tcr⟩] ++ [.queued tca filter]) <+:
            w'.log := by simpa [World.hears, World.setRule] using longer
        exact undisturbed.not_queued longer
      · simp [World.setRule] at have'
      · simp [World.setRule] at have'
  · rintro ⟨r, search, known⟩
    refine ⟨w.hears ⟨chainNo, prio, some tcr⟩, ?_, .hears w _⟩
    have live := objRuleFind_live search
    obtain ⟨chain, position⟩ := objRuleFind_some search
    rw [objRuleNetlinkFound, objRuleFind_hears, search, ok_bind]
    have followed : (w.hears ⟨chainNo, prio, some tcr⟩).rule r = .ok (w.rules.cell r) :=
      rule_live live
    simp [followed, chain, position, known, require, bind, Except.bind, pure, Except.pure]

/-- `obj_rule_unref` on a rule that is in no kernel reaps it with its last reference. -/
theorem objRuleUnref_absent {c : Calls} {r : RuleId} {n : Nat} (live : w.Live r)
    (present : (w.rules.cell r).obj.state = .present) (absent : (w.rules.cell r).haveTcr = none)
    (counted : (w.rules.cell r).obj.refcnt = n + 1) :
    objRuleUnref c r w =
      if n = 0 then objRuleReap r (w.setRule r fun rule =>
        { rule with obj := { rule.obj with refcnt := n } })
      else .ok (w.setRule r fun rule => { rule with obj := { rule.obj with refcnt := n } }) := by
  have unref : objUnref (w.rules.cell r).obj = .ok { (w.rules.cell r).obj with refcnt := n } := by
    rw [objUnref, if_neg (by simp [present]), if_pos (by omega), counted, Nat.add_sub_cancel]
  have write : (w.setRule r fun rule => { rule with
      obj := { (w.rules.cell r).obj with refcnt := n } }) =
      w.setRule r fun rule => { rule with obj := { rule.obj with refcnt := n } } := by
    have same := Heap.modify_congr w.rules r
      (fun rule => { rule with obj := { (w.rules.cell r).obj with refcnt := n } })
      (fun rule => { rule with obj := { rule.obj with refcnt := n } }) rfl
    rw [World.setRule, World.setRule, same]
  rw [objRuleUnref, rule_live live, ok_bind, unref, ok_bind]
  dsimp only
  rw [if_neg (by simp [absent]), pure_bind, write, cell_setRule]
  dsimp only
  rw [require, if_pos (.inl live), ok_bind]
  by_cases last : n = 0
  · rw [if_pos (by cases mode : w.mode <;> simp [World.setRule, objIsReapable, last, present, mode]),
      if_pos last]
  · rw [if_neg (by cases mode : w.mode <;> simp [World.setRule, objIsReapable, last, mode]),
      if_neg last]
    rfl

/-- The rule that `obj_rule_delete` was called on, before its state is updated. -/
def ObjRule.vanished (rule : ObjRule) : ObjRule :=
  { rule with obj := { objRef rule.obj with state := .present }, haveTcr := none }

/-- Nothing changes about a rule that was absent before and keeps its references. -/
theorem ObjRule.vanished_absent {rule : ObjRule} (absent : rule.haveTcr = none)
    (state : rule.obj.state = .present) :
    { rule.vanished with obj := { rule.vanished.obj with refcnt := rule.obj.refcnt } } = rule := by
  obtain ⟨⟨kind, refcnt, weakRefcnt, _⟩, _, _, _, _, _, _, _, _, _⟩ := rule
  dsimp only at absent state
  subst absent state
  simp [ObjRule.vanished]

/-- What is done about the removal of the filter of a rule. -/
theorem objRuleNetlinkGone_found {c : Calls} {r : RuleId}
    (search : objRuleFind chainNo prio tcr w = .ok (some r)) :
    objRuleNetlinkGone c chainNo prio tcr w =
      (if (w.rules.cell r).wantTcr.isSome then
        c.objRuleUpdateState r ((w.hears ⟨chainNo, prio, none⟩).setRule r ObjRule.vanished)
      else .ok ((w.hears ⟨chainNo, prio, none⟩).setRule r ObjRule.vanished)) >>=
        objRuleUnref c r := by
  have live : (w.hears ⟨chainNo, prio, none⟩).Live r := objRuleFind_live search
  rw [objRuleNetlinkGone, objRuleFind_hears, search, ok_bind]
  dsimp only
  rw [rule_live live, ok_bind, objRuleDelete, objRuleRef_live live, ok_bind]
  simp only [setRule_setRule]
  have live' : World.Live ((w.hears ⟨chainNo, prio, none⟩).setRule r ObjRule.vanished) r := by
    rw [World.Live] at live ⊢
    rw [cell_setRule]
    simpa [ObjRule.vanished] using live
  change ((w.hears ⟨chainNo, prio, none⟩).setRule r ObjRule.vanished).rule r >>= _ = _
  rw [rule_live live', ok_bind, cell_setRule]
  dsimp only [ObjRule.vanished, World.rules_hears]
  by_cases wanted : (w.rules.cell r).wantTcr.isSome = true
  · rw [if_pos wanted]
    exact if_pos wanted
  · rw [if_neg wanted]
    exact if_neg wanted

/-- The last step of `obj_rule_delete` leaves the rules alone exactly when somebody has a
reference to a rule that was absent before. -/
theorem objRuleUnref_vanished {c : Calls} {r : RuleId} {state : ObjRuleState} {before : World}
    (live : before.Live r) (alive : (before.rules.cell r).obj.state ≠ .zombie)
    (rules : w.rules = before.rules.modify r fun rule => { rule.vanished with state })
    (ran : objRuleUnref c r w = .ok w') (undisturbed : Undisturbed before w') :
    (before.rules.cell r).haveTcr = none ∧ (before.rules.cell r).obj.state = .present ∧
      (before.rules.cell r).obj.refcnt ≠ 0 ∧ state = (before.rules.cell r).state := by
  have cell : w.rules.cell r = { (before.rules.cell r).vanished with state } := by
    rw [rules, Heap.cell_modify_same]
  have live' : w.Live r := by
    rw [World.Live, cell]
    rw [World.Live] at live
    simpa [ObjRule.vanished] using live
  have unref := objRuleUnref_absent (c := c) (n := (before.rules.cell r).obj.refcnt) live'
    (by rw [cell]; rfl) (by rw [cell]; rfl)
    (by rw [cell]; simp [ObjRule.vanished, refcnt_objRef alive])
  rw [unref] at ran
  have after := congrArg (fun rules : Heap ObjRule => rules.cell r) undisturbed.rules
  split at ran
  · obtain ⟨rfl, -⟩ := objRuleReap_ok ran
    have freed := congrArg (fun rule : ObjRule => rule.obj.kind) after
    rw [World.Live] at live
    simp [World.reaped, World.setRule, ObjRule.reaped, live] at freed
  · next referenced =>
    cases ran
    have after : { (before.rules.cell r).vanished with
        state, obj := { (before.rules.cell r).vanished.obj with
          refcnt := (before.rules.cell r).obj.refcnt } } = before.rules.cell r := by
      simpa [World.setRule, cell] using after
    exact ⟨(congrArg ObjRule.haveTcr after).symm,
      (congrArg (fun rule : ObjRule => rule.obj.state) after).symm, referenced,
      congrArg ObjRule.state after⟩

/-- A reported removal leaves the rules alone exactly when no rule is found, or the rule that is
found is absent. -/
theorem objRuleNetlinkGone_undisturbed (free : g.Free) (orderly : Orderly g w)
    (pins : w.pinChanges = 0 ∨ w.pinChanges = 3) :
    (∃ w', objRuleNetlinkGone (calls (bound + 1)) chainNo prio tcr w = .ok w' ∧
      Undisturbed w w') ↔
      objRuleFind chainNo prio tcr w = .ok none ∨
        ∃ r, objRuleFind chainNo prio tcr w = .ok (some r) ∧ w.Absent r := by
  constructor
  · rintro ⟨w', ran, undisturbed⟩
    have reported : Orderly (g.ask (.report ⟨chainNo, prio, none⟩)) w :=
      orderly.keep rfl rfl rfl rfl rfl orderly.states.pinned free _
    obtain ⟨found, search⟩ : ∃ found, objRuleFind chainNo prio tcr w = .ok found := by
      rw [objRuleNetlinkGone, objRuleFind_hears] at ran
      obtain ⟨found, search, -⟩ := bind_returned ran
      exact ⟨found, search⟩
    cases found with
    | none => exact .inl search
    | some r =>
      refine .inr ⟨r, search, ?_⟩
      rw [objRuleNetlinkGone_found search] at ran
      have live := objRuleFind_live search
      have alive := (orderly.sound.counts.alive r live).1
      have unchanged : ((w.hears ⟨chainNo, prio, none⟩).setRule r ObjRule.vanished).rules =
          w.rules.modify r fun rule => { rule.vanished with state := (w.rules.cell r).state } :=
        Heap.modify_congr w.rules r ObjRule.vanished
          (fun rule => { rule.vanished with state := (w.rules.cell r).state }) rfl
      have vanish := keeps_orderly.kept reported (Effect.vanish free search live)
      cases want : (w.rules.cell r).wantTcr with
      | none =>
        rw [want, Option.isSome_none, if_neg Bool.false_ne_true, ok_bind] at ran
        obtain ⟨absent, state, referenced, -⟩ :=
          objRuleUnref_vanished live alive unchanged ran undisturbed
        exact ⟨absent, state, referenced, .inl want⟩
      | some wanted =>
        rw [want, Option.isSome_some, if_pos rfl] at ran
        rw [want, if_neg (Option.some_ne_none wanted)] at vanish
        have free' : (g.lend r).Free := free
        have vanish : Orderly ((g.lend r).ask (.update r))
          ((w.hears ⟨chainNo, prio, none⟩).setRule r ObjRule.vanished) := vanish
        obtain ⟨w₁, updated, ran⟩ := bind_returned ran
        rcases objRuleUpdateState_quiet free' vanish updated with
          ⟨tca, filter, longer⟩ | ⟨skips, rfl⟩ | ⟨state, settles, removed, -⟩
        · -- the release of the reference only adds to the history
          have effects := ((calls_orderly (bound + 1)).updateState _ r free'.ready
            vanish).of_ok updated
          have more := (objRuleUnref_does keeps_orderly (calls_orderly (bound + 1)) r free.ready
            (effects.kept keeps_orderly vanish)).of_ok ran
          have longer : w.log ++ ([.heard ⟨chainNo, prio, none⟩] ++ [.queued tca filter]) <+:
              w'.log := by
            refine List.IsPrefix.trans ?_ more.log
            simpa [World.hears, World.setRule] using longer
          exact (undisturbed.not_queued longer).elim
        · obtain ⟨absent, state, referenced, -⟩ :=
            objRuleUnref_vanished live alive unchanged ran undisturbed
          refine ⟨absent, state, referenced, .inr ?_⟩
          cases skips with
          | pinned pinned => exact .inl pinned
          | queued queued =>
            rw [cell_setRule] at queued
            exact .inr queued
          | new unwanted _ _ =>
            rw [cell_setRule] at unwanted
            exact absurd (want.symm.trans unwanted) (Option.some_ne_none wanted)
        · have three : w.pinChanges = 3 := pins.resolve_left removed
          rw [cell_setRule] at settles
          cases settles with
          | zombie unwanted _ _ => exact absurd (want.symm.trans unwanted) (Option.some_ne_none _)
          | want _ _ few =>
            have few : w.pinChanges < 2 := few
            omega
          | alien present _ _ => exact absurd rfl present
          | ok present _ _ => exact absurd rfl present
  · rintro (search | ⟨r, search, absent⟩)
    · refine ⟨w.hears ⟨chainNo, prio, none⟩, ?_, .hears w _⟩
      rw [objRuleNetlinkGone, objRuleFind_hears, search, ok_bind]
      rfl
    · refine ⟨w.hears ⟨chainNo, prio, none⟩, ?_, .hears w _⟩
      obtain ⟨gone, state, referenced, quiet⟩ := absent
      have live := objRuleFind_live search
      have alive := (orderly.sound.counts.alive r live).1
      have cell : ((w.hears ⟨chainNo, prio, none⟩).setRule r ObjRule.vanished).rules.cell r =
          (w.rules.cell r).vanished := by rw [cell_setRule, World.rules_hears]
      have live' : ((w.hears ⟨chainNo, prio, none⟩).setRule r ObjRule.vanished).Live r := by
        rw [World.Live] at live ⊢
        rw [cell]
        simpa [ObjRule.vanished] using live
      have updated : (if (w.rules.cell r).wantTcr.isSome then
          (calls (bound + 1)).objRuleUpdateState r
            ((w.hears ⟨chainNo, prio, none⟩).setRule r ObjRule.vanished)
          else .ok ((w.hears ⟨chainNo, prio, none⟩).setRule r ObjRule.vanished)) =
          .ok ((w.hears ⟨chainNo, prio, none⟩).setRule r ObjRule.vanished) := by
        split
        · next wanted =>
          refine objRuleUpdateState_skips live' ?_
          rw [cell]
          exact quiet.resolve_left (Option.isSome_iff_ne_none.mp wanted)
        · rfl
      rw [objRuleNetlinkGone_found search, updated, ok_bind,
        objRuleUnref_absent (c := calls (bound + 1)) (n := (w.rules.cell r).obj.refcnt) live'
          (by rw [cell]; rfl) (by rw [cell]; rfl)
          (by rw [cell]; simp [ObjRule.vanished, refcnt_objRef alive]),
        if_neg referenced, setRule_setRule]
      have same := Heap.modify_id w.rules r (f := fun rule => { rule.vanished with
        obj := { rule.vanished.obj with refcnt := (w.rules.cell r).obj.refcnt } })
        (ObjRule.vanished_absent gone state)
      rw [World.setRule, World.rules_hears, same]
      rfl

end Reports

/-- A filter message, of whatever interface and parent, leaves the rules alone and queues no action
exactly when what it says is known already. -/
theorem decodeFilter_undisturbed {g : Ghost} {w : World} (free : g.Free) (orderly : Orderly g w)
    (pins : w.pinChanges = 0 ∨ w.pinChanges = 3) (nlh : Nlmsg) (bound : Nat) :
    (∃ w', decodeFilter (calls (bound + 1)) nlh w = .ok w' ∧ Undisturbed w w') ↔ w.Knows nlh := by
  have still := Undisturbed.refl w
  rw [decodeFilter, World.Knows]
  cases decoded : tryDecodeFilter nlh with
  | error stop =>
    cases stop with
    | callbackError => simp [still]
    | fault fault => simp
  | ok tdr =>
    by_cases done : tdr.isDone = true
    · simp only [done, if_true, true_implies]
      by_cases removal : nlh.type = rtmDeltfilter
      · simp only [removal, if_true]
        rw [objRuleNetlinkGone_undisturbed free orderly pins]
        cases objRuleFind tdr.chainNo tdr.prio tdr.tcr w with
        | error fault => simp
        | ok found => cases found <;> simp
      · simp only [removal, if_false]
        rw [objRuleNetlinkFound_undisturbed free orderly]
        cases objRuleFind tdr.chainNo tdr.prio tdr.tcr w with
        | error fault => simp
        | ok found => cases found <;> simp
    · simp [done, still]

section Ignored

variable {w : World} {nlh : Nlmsg} {r : RuleId}

/-- Where no rule is at a position, none is found. -/
theorem World.Searchable.find_none (searchable : w.Searchable) {chainNo : UInt32} {prio : UInt16}
    (nobody : ∀ r, w.Live r → (w.rules.cell r).chainNo = chainNo → (w.rules.cell r).prio ≠ prio)
    (tcr : TcRule) : objRuleFind chainNo prio tcr w = .ok none := by
  obtain ⟨placed, readable⟩ := searchable
  obtain ⟨found, byPosition⟩ : ∃ found, objRulePosLookup chainNo prio w = .ok found :=
    SearchTree.find_returns fun r inside => ⟨_, posCompare_live (placed.member r inside).1⟩
  have missing : found = none := by
    cases found with
    | none => rfl
    | some r =>
      obtain ⟨-, live, chain, position⟩ := objRulePosLookup_some byPosition
      exact absurd position (nobody r live chain)
  obtain ⟨found, byContent⟩ : ∃ found, objRuleLafLookup tcr w = .ok found := by
    refine SearchTree.find_returns fun r inside => ?_
    obtain ⟨live, some⟩ := readable r inside
    obtain ⟨haveTcr, here⟩ := Option.ne_none_iff_exists'.mp some
    rw [lafCompare, rule_live live, ok_bind, here]
    exact ⟨_, rfl⟩
  rw [objRuleFind, byPosition, missing, ok_bind]
  dsimp only
  rw [byContent, ok_bind]
  cases found with
  | none => rfl
  | some r =>
    have live := (readable r (SearchTree.find_some byContent).1).1
    have elsewhere : (w.rules.cell r).chainNo ≠ chainNo ∨ (w.rules.cell r).prio ≠ prio := by
      by_contra here
      have chain : (w.rules.cell r).chainNo = chainNo := by_contra fun other => here (.inl other)
      exact here (.inr (nobody r live chain))
    dsimp only
    rw [rule_live live, ok_bind, if_pos elsewhere]
    rfl

/-- The rule of the tree at the position of a message is found. -/
theorem World.Searchable.find (searchable : w.Searchable) (holds : w.Holds nlh r) (tcr : TcRule) :
    objRuleFind nlh.chainNo nlh.prio tcr w = .ok (some r) := by
  obtain ⟨inside, chain, prio⟩ := holds
  have found := searchable.placed.find inside
  rw [chain, prio] at found
  rw [objRuleFind, found]
  rfl

/-- What a message says is known where it is ignored. -/
theorem World.Ignores.knows (ignores : w.Ignores nlh) : w.Knows nlh := by
  rw [World.Knows]
  cases ignores with
  | unhandled zero =>
    have skipped : tryDecodeFilter nlh = .ok {} := by
      unfold tryDecodeFilter
      rw [if_pos zero]
      rfl
    rw [skipped]
    exact fun done => Bool.noConfusion done
  | malformed one malformed =>
    rw [malformed.rejected one]
    trivial
  | unknown one removal searchable nobody =>
    obtain ⟨tcr, decoded⟩ := removal.decoded one
    rw [decoded]
    dsimp only
    rw [searchable.find_none nobody tcr]
    exact fun _ => removal.1
  | absent one removal searchable holds absent =>
    obtain ⟨tcr, decoded⟩ := removal.decoded one
    rw [decoded]
    dsimp only
    rw [searchable.find holds tcr]
    dsimp only
    rw [if_pos removal.1]
    exact fun _ => absent
  | @known r tcr one new valid describes searchable holds known =>
    have kept : ¬ nlh.type = rtmDeltfilter := by
      rw [new]
      decide
    rw [describes.decoded new one valid]
    dsimp only
    rw [searchable.find holds tcr]
    dsimp only
    rw [if_neg kept]
    exact fun _ => known

end Ignored

section Runs

variable {config : Config} {bound : Nat} {events : List MonitorEvent} {s s' : Owners}

/-- A filter message of others. -/
def MonitorEvent.Foreign (config : Config) : MonitorEvent → Prop
  | .rule _ => False
  | .received nlh => nlh.Foreign config

instance (config : Config) (e : MonitorEvent) : Decidable (e.Foreign config) :=
  match e with
  | .rule _ => inferInstanceAs (Decidable False)
  | .received nlh => inferInstanceAs (Decidable (nlh.Foreign config))

/-- The events without the filter messages of others. -/
def ownEvents (config : Config) (events : List MonitorEvent) : List MonitorEvent :=
  events.filter fun e => ¬ e.Foreign config

/-- Every filter message of others meets a condition on the world that it finds. -/
def Owners.Meets (meets : World → Nlmsg → Prop) (config : Config) (bound : Nat)
    (events : List MonitorEvent) (s : Owners) : Prop :=
  ∀ before nlh after s', events = before ++ .received nlh :: after → nlh.Foreign config →
    s.monitorPlay bound before = .ok s' → meets s'.world nlh

/-- A message is handled without a change. -/
def World.Unaffected (bound : Nat) (w : World) (nlh : Nlmsg) : Prop :=
  ∃ w', decodeNlmsgCb (calls bound) nlh w = .ok w' ∧ Undisturbed w w'

/-- An event of the history that is a report. -/
def TcEvent.isReport : TcEvent → Bool
  | .heard _ => true
  | .queued .. | .sent .. => false

/-- Owners with the actions of their history only. -/
def Owners.acts (s : Owners) : Owners :=
  { s with world := { s.world with log := s.world.log.filter fun e => !e.isReport } }

/-- The condition of a run that begins with an event. -/
theorem Owners.Meets.cons {meets : World → Nlmsg → Prop} {e : MonitorEvent}
    (here : ∀ nlh, e = .received nlh → meets s.world nlh)
    (later : ∀ s', (if e.Allowed s then e.run bound s else .error .assertion) = .ok s' →
      Meets meets config bound events s') : Meets meets config bound (e :: events) s := by
  intro before nlh after s' split foreign played
  cases before with
  | nil =>
    cases played
    cases split
    exact here nlh rfl
  | cons first before =>
    cases split
    obtain ⟨s₁, ran, played⟩ := bind_returned ((List.foldlM_cons ..).symm.trans played)
    exact later s₁ ran before nlh after s' rfl foreign played

/-- Owners without a history. -/
def Owners.fresh (s : Owners) : Owners := { s with world := { s.world with log := [] } }

/-- They are behind their own history again. -/
theorem Owners.fresh_after (s : Owners) : s.fresh.after s.world.log = s := by
  rw [after, fresh, World.after]
  dsimp only
  rw [List.append_nil]

theorem Owners.monitorPlay_cons (s : Owners) (bound : Nat) (e : MonitorEvent)
    (events : List MonitorEvent) : s.monitorPlay bound (e :: events) =
      (if e.Allowed s then e.run bound s else .error .assertion) >>= fun s =>
        s.monitorPlay bound events := List.foldlM_cons ..

/-- What an event keeps. -/
theorem MonitorEvent.run_orderly {e : MonitorEvent} (allowed : e.Allowed s)
    (between : Between Orderly s) (ran : e.run bound s = .ok s') : Between Orderly s' := by
  cases e with
  | rule e => exact (RuleEvent.run_keeps carries_orderly allowed trivial between bound).of_ok ran
  | received nlh =>
    obtain ⟨w, handled, ran⟩ := bind_returned ran
    cases ran
    rw [decodeNlmsgCb] at handled
    split at handled
    · rw [decodeChain] at handled
      split at handled
      · cases handled
      · cases handled
        exact between
      · next chainNo _ =>
        split at handled
        · cases handled
          exact between
        · split at handled
          · cases handled
            exact between
          · obtain ⟨chainTree, rfl⟩ := (filterGotChain_returns chainNo s.world).of_ok handled
            obtain ⟨orderly, pins⟩ := between
            exact ⟨@Orderly.keep _ s.world { s.world with chainTree } orderly rfl rfl rfl rfl rfl
              orderly.states.pinned rfl none, pins⟩
    · split at handled
      · rw [decodeFilter] at handled
        split at handled
        · cases handled
        · cases handled
          exact between
        · next tdr _ =>
          split at handled
          · have ran : RuleEvent.run bound s (.message nlh.type tdr.chainNo tdr.prio tdr.tcr) =
                .ok { s with world := w } := by
              rw [RuleEvent.run, objRuleNetlink, handled]
              rfl
            exact (RuleEvent.run_keeps carries_orderly (e := .message _ _ _ _) trivial trivial between
              bound).of_ok ran
          · cases handled
            exact between
      · cases handled
        exact between

/-- What a run keeps. -/
theorem Owners.monitorPlay_orderly (between : Between Orderly s)
    (played : s.monitorPlay bound events = .ok s') : Between Orderly s' := by
  induction events generalizing s with
  | nil =>
    cases played
    exact between
  | cons e events ih =>
    rw [monitorPlay_cons] at played
    obtain ⟨s₁, ran, played⟩ := bind_returned played
    split at ran
    · next allowed => exact ih (e.run_orderly allowed between ran) played
    · cases ran

/-- A message that is ignored changes nothing. -/
theorem World.Ignores.unaffected {g : Ghost} {w : World} {nlh : Nlmsg} (ignores : w.Ignores nlh)
    (foreign : nlh.Foreign config) (free : g.Free) (orderly : Orderly g w)
    (pins : w.pinChanges = 0 ∨ w.pinChanges = 3) : w.Unaffected (bound + 1) nlh := by
  have noChain : ¬ (nlh.type = rtmNewchain ∨ nlh.type = rtmDelchain) := by
    rcases foreign.1 with type | type <;> rw [type] <;> decide
  rw [World.Unaffected, decodeNlmsgCb, if_neg noChain, if_pos foreign.1]
  exact (decodeFilter_undisturbed free orderly pins nlh bound).mpr ignores.knows

/-- The condition of a run, after its first event. -/
theorem Owners.Meets.later {meets : World → Nlmsg → Prop} {e : MonitorEvent}
    (all : Meets meets config bound (e :: events) s) (allowed : e.Allowed s)
    (ran : e.run bound s = .ok s') : Meets meets config bound events s' := by
  intro before nlh after s₁ split foreign played
  refine all (e :: before) nlh after s₁ (by rw [split, List.cons_append]) foreign ?_
  rw [monitorPlay_cons, if_pos allowed, ran]
  exact played

/-- The receipt of a message that is handled without a change adds no action. -/
theorem World.Unaffected.received {nlh : Nlmsg} (unaffected : s.world.Unaffected bound nlh) :
    ∃ s', MonitorEvent.run bound s (.received nlh) = .ok s' ∧ s'.fresh = s.fresh ∧
      s'.world.log.filter (!·.isReport) = s.world.log.filter (!·.isReport) := by
  obtain ⟨w, handled, notes, same⟩ := unaffected
  have silent : (notes.map TcEvent.heard).filter (!·.isReport) = [] := by
    rw [List.filter_eq_nil_iff]
    intro event inside
    obtain ⟨note, -, rfl⟩ := List.mem_map.mp inside
    exact Bool.false_ne_true
  refine ⟨{ s with world := w }, ?_, ?_, ?_⟩
  · rw [MonitorEvent.run, handled]
    rfl
  · rw [same]
    rfl
  · rw [same, List.filter_append, silent, List.append_nil]

/-- Where the messages of others are handled without a change, the run is the one without them,
but for the reports in the history. -/
theorem Owners.monitorPlay_own {v : Owners} {past past' : List TcEvent}
    (alike : past.filter (!·.isReport) = past'.filter (!·.isReport))
    (unaffected : Meets (World.Unaffected bound) config bound events (v.after past)) :
    ((v.after past).monitorPlay bound events).map acts =
      ((v.after past').monitorPlay bound (ownEvents config events)).map acts := by
  induction events generalizing v past past' with
  | nil =>
    show Except.ok (v.after past).acts = Except.ok (v.after past').acts
    simp only [acts, after, World.after, List.filter_append, alike]
  | cons e events ih =>
    rw [monitorPlay_cons]
    by_cases foreign : e.Foreign config
    · cases e with
      | rule e => cases foreign
      | received nlh =>
        obtain ⟨s₁, ran, bare, logs⟩ := (unaffected [] nlh events _ rfl foreign rfl).received
        have later := unaffected.later trivial ran
        have dropped : ownEvents config (.received nlh :: events) = ownEvents config events :=
          List.filter_cons_of_neg (by simpa using foreign)
        have same : (v.after past').fresh = s₁.fresh := bare.symm
        have logs' : s₁.world.log.filter (!·.isReport) =
            (v.after past').world.log.filter (!·.isReport) := by
          rw [logs]
          simp only [after, World.after, List.filter_append, alike]
        rw [← fresh_after s₁] at later
        have rest := ih logs' later
        rw [fresh_after, ← same, fresh_after] at rest
        have allowed : MonitorEvent.Allowed (v.after past) (.received nlh) := trivial
        rw [if_pos allowed, ran, ok_bind, dropped]
        exact rest
    · have kept : ownEvents config (e :: events) = e :: ownEvents config events :=
        List.filter_cons_of_pos (by simpa using foreign)
      have alone : e.Allowed (v.after past') ↔ e.Allowed (v.after past) := by
        cases e with
        | rule e => cases e <;> exact Iff.rfl
        | received nlh => exact Iff.rfl
      rw [kept, monitorPlay_cons]
      by_cases allowed : e.Allowed (v.after past)
      · have here := e.run_forgets bound past v
        have there := e.run_forgets bound past' v
        rw [if_pos allowed, if_pos (alone.mpr allowed)]
        rw [Maps] at here there
        rw [here, there]
        cases ran : e.run bound v with
        | error fault => rfl
        | ok v' =>
          rw [ran] at here
          exact ih alike (unaffected.later allowed here)
      · rw [if_neg allowed, if_neg fun other => allowed (alone.mp other)]
        rfl

end Runs

/-- Where every filter message of others is ignored by the state that it finds, it changes no rule
and queues no action, and two runs that differ in such messages only perform the same actions. -/
theorem other_filters_ignored {w : World} (blank : w.Blank) (bound : Nat)
    (events events' : List MonitorEvent)
    (ignored : Owners.Meets World.Ignores w.config (bound + 1) events { world := w })
    (ignored' : Owners.Meets World.Ignores w.config (bound + 1) events' { world := w })
    (same : ownEvents w.config events = ownEvents w.config events') :
    Owners.Meets (World.Unaffected (bound + 1)) w.config (bound + 1) events { world := w } ∧
      (Owners.monitorPlay (bound + 1) events { world := w }).map Owners.acts =
        (Owners.monitorPlay (bound + 1) events' { world := w }).map Owners.acts := by
  have unaffected : ∀ events,
      Owners.Meets World.Ignores w.config (bound + 1) events { world := w } →
      Owners.Meets (World.Unaffected (bound + 1)) w.config (bound + 1) events { world := w } := by
    intro events ignored before nlh after s split foreign played
    have begins : Between Orderly { world := w } := ⟨blank.orderly, .inl blank.pinChanges⟩
    obtain ⟨orderly, pins⟩ := Owners.monitorPlay_orderly begins played
    have free : s.ghost.Free := rfl
    exact (ignored before nlh after s split foreign played).unaffected foreign free orderly pins
  have start : Owners.after [] { world := w } = { world := w } := rfl
  have own : ∀ events,
      Owners.Meets World.Ignores w.config (bound + 1) events { world := w } →
      (Owners.monitorPlay (bound + 1) events { world := w }).map Owners.acts =
        (Owners.monitorPlay (bound + 1) (ownEvents w.config events) { world := w }).map
          Owners.acts := by
    intro events ignored
    have play := @Owners.monitorPlay_own w.config (bound + 1) events { world := w } [] [] rfl
      (start ▸ unaffected events ignored)
    rw [start] at play
    exact play
  exact ⟨unaffected events ignored, by rw [own events ignored, own events' ignored', same]⟩

/-- A FORWARD filter of interface 99, as the kernel reports it. -/
def otherFilter : Nlmsg where
  type := rtmNewtfilter
  flags := 0
  tcm := { ifindex := 99, handle := 1, parent := ingressParent, info := 0x00010081 }
  attrs := encodeAll [
    mnlAttrPutU32 11 5, mnlAttrPutStrz 1 "flower",
    mnlAttrNest 2 ([mnlAttrPutU32 22 0, mnlAttrPutU16 25 (htons ethPIp),
      mnlAttrPutU16 8 (htons ethPIp)] ++ tceAddIpForwardRule 99 (forwardRule 7))]

/-- The removal of a filter of interface 99 at its position. -/
def otherRemoval : Nlmsg where
  type := rtmDeltfilter
  flags := 0
  tcm := { ifindex := 99, handle := 1, parent := ingressParent, info := 0x00010081 }
  attrs := encodeAll [mnlAttrPutU32 11 5]

/-- Its attributes have all that is read of them. -/
theorem otherRemoval_removal : otherRemoval.Removal := by
  have attrs : parse otherRemoval.attrs = [mnlAttrPutU32 11 5] :=
    parse_encodeAll (by simp [mnlAttrPutU32, mnlAttrPut, Attr.Fits])
  have none : flowerOptions otherRemoval = none := by decide +kernel
  refine ⟨rfl, ⟨?_, fun options flower => ?_⟩, fun options flower => ?_⟩
  · rw [Valid, attrs]
    decide
  · rw [none] at flower
    cases flower
  · rw [none] at flower
    cases flower

/-- The options of the first are those of the rule. -/
theorem otherFilter_describes : otherFilter.Describes (forwardRule 7) := by
  have rule : DaemonRule (forwardRule 7) := .forward (.inl rfl) (by decide) rfl
  have written : tcEncodeRule 99 5 1 (some (forwardRule 7)) true =
      .ok { otherFilter with flags := nlmFRequestAck ||| nlmFExclCreate } := rfl
  exact .daemon rule written rfl rfl

/-- A rule is requested and installed, and the install is reported. -/
def forwardEvents : List MonitorEvent :=
  [.rule (.request (forwardRule 7)), .rule .removePin, .rule .notified]

/-- A removal of interface 99 before and the same filter there after it change nothing. -/
theorem other_filters_ignored_installed :
    ∃ s, Owners.monitorPlay 9 forwardEvents { world := blankWorld } = .ok s ∧
      .sent ⟨5, 1, some (forwardRule 7), 0⟩ none (some (forwardRule 7)) ∈ s.world.log ∧
      (Owners.monitorPlay 9 (.received otherRemoval :: (forwardEvents ++ [.received otherFilter]))
        { world := blankWorld }).map Owners.acts = .ok s.acts := by
  have gone : tryDecodeFilter otherRemoval = .ok { isDone := true, chainNo := 5, prio := 1 } := by
    decide +kernel
  have noChain : ¬ (otherRemoval.type = rtmNewchain ∨ otherRemoval.type = rtmDelchain) := by decide
  have handled : decodeNlmsgCb (calls 9) otherRemoval blankWorld =
      .ok (blankWorld.hears ⟨5, 1, none⟩) := by
    rw [decodeNlmsgCb, if_neg noChain, if_pos (.inr rfl), decodeFilter, gone]
    rfl
  have first : (if (MonitorEvent.received otherRemoval).Allowed { world := blankWorld } then
      MonitorEvent.run 9 { world := blankWorld } (.received otherRemoval)
      else .error .assertion) = .ok { world := blankWorld.hears ⟨5, 1, none⟩ } := by
    have allowed : (MonitorEvent.received otherRemoval).Allowed { world := blankWorld } := trivial
    rw [if_pos allowed, MonitorEvent.run, handled]
    rfl
  obtain ⟨s₄, played, tree, laf, kind, chain, prio, has⟩ : ∃ s₄, Owners.monitorPlay 9 forwardEvents
      { world := blankWorld.hears ⟨5, 1, none⟩ } = .ok s₄ ∧
      s₄.world.posTree.toList = [0] ∧ s₄.world.lafTree = .leaf ∧ s₄.world.Live 0 ∧
      (s₄.world.rules.cell 0).chainNo = 5 ∧ (s₄.world.rules.cell 0).prio = 1 ∧
      (s₄.world.rules.cell 0).haveTcr = some (forwardRule 7) :=
    ⟨_, rfl, rfl, rfl, rfl, rfl, rfl, rfl⟩
  have unknown : blankWorld.Ignores otherRemoval := by
    refine .unknown rfl otherRemoval_removal ⟨⟨fun r inside => ?_, .nil⟩, fun r inside => ?_⟩
      fun r live => ?_
    · cases inside
    · cases inside
    · cases live
  have known : s₄.world.Ignores otherFilter := by
    refine .known rfl rfl (by decide +kernel) otherFilter_describes
      ⟨⟨fun r inside => ?_, ?_⟩, fun r inside => ?_⟩ ⟨?_, ?_, ?_⟩ has
    · rw [tree] at inside
      rw [List.mem_singleton.mp inside, chain]
      exact ⟨kind, by decide⟩
    · rw [tree]
      exact List.pairwise_singleton _ _
    · rw [laf] at inside
      cases inside
    · rw [tree]
      exact List.mem_singleton_self 0
    · rw [chain]
      decide +kernel
    · rw [prio]
      decide +kernel
  have last : ∀ (s : Owners), Owners.Meets World.Ignores blankWorld.config 9 [] s :=
    fun s before nlh after s' split => by cases before <;> cases split
  obtain ⟨s, own, sent⟩ : ∃ s, Owners.monitorPlay 9 forwardEvents { world := blankWorld } = .ok s ∧
      .sent ⟨5, 1, some (forwardRule 7), 0⟩ none (some (forwardRule 7)) ∈ s.world.log :=
    ⟨_, rfl, by decide⟩
  refine ⟨s, own, sent, ?_⟩
  have same := (other_filters_ignored blankWorld_blank 8
    (.received otherRemoval :: (forwardEvents ++ [.received otherFilter])) forwardEvents ?_ ?_
    rfl).2
  · rw [same, own]
    rfl
  · refine .cons (fun nlh same => by cases same; exact unknown) fun s₁ ran => ?_
    cases first.symm.trans ran
    refine .cons (fun nlh same => by cases same) fun s₂ ran₂ => ?_
    refine .cons (fun nlh same => by cases same) fun s₃ ran₃ => ?_
    refine .cons (fun nlh same => by cases same) fun s₅ ran₄ => ?_
    rw [forwardEvents, Owners.monitorPlay_cons, ran₂, ok_bind, Owners.monitorPlay_cons, ran₃, ok_bind,
      Owners.monitorPlay_cons, ran₄, ok_bind] at played
    cases played
    exact .cons (fun nlh same => by cases same; exact known) fun s _ => last s
  · refine .cons (fun nlh same => by cases same) fun s₂ _ => ?_
    refine .cons (fun nlh same => by cases same) fun s₃ _ => ?_
    exact .cons (fun nlh same => by cases same) fun s₄ _ => last s₄

theorem otherFilter_decoded : tryDecodeFilter otherFilter = .ok {
    isDone := true, chainNo := 5, prio := 1, tcr := forwardRule 7 } := by
  decide +kernel

/-- It is handled as the report of a FORWARD rule. -/
theorem otherFilter_handled (c : Calls) (w : World) :
    decodeNlmsgCb c otherFilter w = objRuleNetlinkFound c 5 1 (forwardRule 7) w := by
  have noChain : ¬ (otherFilter.type = rtmNewchain ∨ otherFilter.type = rtmDelchain) := by decide
  rw [decodeNlmsgCb, if_neg noChain, if_pos (.inl rfl), decodeFilter, otherFilter_decoded]
  rfl

/-- Once the pins are removed a filter of another interface makes an alien rule, whose removal is
queued for the daemon's interface. -/
theorem other_filters_uninstalled :
    ∃ s, Owners.play 9 [.removePin] { world := blankWorld } = .ok s ∧
      otherFilter.Foreign s.world.config ∧
      ∃ w', decodeNlmsgCb (calls 9) otherFilter s.world = .ok w' ∧
        ¬ Undisturbed s.world w' ∧
        .queued ⟨5, 1, none, 0⟩ none ∈ w'.log ∧ .queued ⟨5, 1, none, 0⟩ none ∉ s.world.log := by
  obtain ⟨s, played, foreign, w', ran, grown, queued⟩ :
      ∃ s, Owners.play 9 [.removePin] { world := blankWorld } = .ok s ∧
      otherFilter.Foreign s.world.config ∧
      ∃ w', objRuleNetlinkFound (calls 9) 5 1 (forwardRule 7) s.world = .ok w' ∧
        w'.rules.next ≠ s.world.rules.next ∧
        .queued ⟨5, 1, none, 0⟩ none ∈ w'.log ∧ .queued ⟨5, 1, none, 0⟩ none ∉ s.world.log :=
    ⟨_, rfl, ⟨.inl rfl, .inl (by decide)⟩, _, rfl, by decide, by decide, by decide⟩
  refine ⟨s, played, foreign, w', (otherFilter_handled _ _).trans ran, fun undisturbed => ?_, queued⟩
  exact grown (congrArg Heap.next undisturbed.rules)

end FlowerRoute
