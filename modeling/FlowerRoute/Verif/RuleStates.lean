import FlowerRoute.Model.Owners
import FlowerRoute.Verif.Installs

/-!
# The states of rules

Between two events a rule in state OK has what it wants, and a rule is in state QUEUED exactly
while one action waits for it. In the middle of an event the rule that `obj_rule_update_state` is
to look at next is exempt.
-/

namespace FlowerRoute

open Outcome

/-- The kernel has what the daemon wants. -/
structure ObjRule.Agrees (rule : ObjRule) : Prop where
  present : rule.haveTcr ≠ none
  same : rule.wantTcr = rule.haveTcr

/-- The states of rules fit what they want and have, and what waits for them. -/
structure States (g : Ghost) (w : World) : Prop where
  ok : ∀ r, w.Live r → (w.rules.cell r).state = .ok →
    (w.rules.cell r).Agrees ∨ g.task = some (.update r)
  queued : ∀ r, (w.rules.cell r).state = .queued → ∃ tca ∈ w.waiting, tca.data = r
  pinned : w.pinChanges = 0 → ∀ r, (w.rules.cell r).state ≠ .ok

section Preservation

variable {g g' : Ghost} {w w' : World}

/-- What a change of one rule preserves. -/
theorem States.modify (states : States g w) {r : RuleId} {f : ObjRule → ObjRule}
    (rules : w'.rules = w.rules.modify r f) (pins : w'.pinChanges = w.pinChanges)
    (waiting : ∀ tca ∈ w.waiting, tca.data ≠ r → tca ∈ w'.waiting)
    (task : ∀ p, p ≠ r → g.task = some (.update p) → g'.task = some (.update p))
    (queued : (f (w.rules.cell r)).state = .queued → ∃ tca ∈ w'.waiting, tca.data = r)
    (pinned : w.pinChanges = 0 → (f (w.rules.cell r)).state ≠ .ok)
    (ok : (f (w.rules.cell r)).obj.kind = .rule → (f (w.rules.cell r)).state = .ok →
      (f (w.rules.cell r)).Agrees ∨ g'.task = some (.update r)) : States g' w' where
  ok p live state := by
    rw [World.Live, rules, Heap.cell_modify] at live
    rw [rules, Heap.cell_modify] at state ⊢
    by_cases here : p = r
    · subst here
      rw [if_pos rfl] at live state ⊢
      exact ok live state
    · rw [if_neg here] at live state ⊢
      exact (states.ok p live state).imp_right (task p here)
  queued p state := by
    rw [rules, Heap.cell_modify] at state
    by_cases here : p = r
    · subst here
      rw [if_pos rfl] at state
      exact queued state
    · rw [if_neg here] at state
      obtain ⟨tca, member, same⟩ := states.queued p state
      exact ⟨tca, waiting tca member (same ▸ here), same⟩
  pinned zero p state := by
    rw [rules, Heap.cell_modify] at state
    rw [pins] at zero
    by_cases here : p = r
    · subst here
      rw [if_pos rfl] at state
      exact pinned zero state
    · rw [if_neg here] at state
      exact states.pinned zero p state

/-- What a change of one rule preserves that leaves its state alone. -/
theorem States.rewrite (states : States g w) {r : RuleId} {f : ObjRule → ObjRule}
    (rules : w'.rules = w.rules.modify r f) (pins : w'.pinChanges = w.pinChanges)
    (waiting : w'.waiting = w.waiting)
    (task : ∀ p, p ≠ r → g.task = some (.update p) → g'.task = some (.update p))
    (state : (f (w.rules.cell r)).state = (w.rules.cell r).state)
    (ok : (f (w.rules.cell r)).obj.kind = .rule → (w.rules.cell r).state = .ok →
      (f (w.rules.cell r)).Agrees ∨ g'.task = some (.update r)) : States g' w' := by
  refine states.modify rules pins (fun _ member _ => waiting ▸ member) task (fun queued => ?_)
    (fun zero => state ▸ states.pinned zero r) fun kind => state ▸ ok kind
  rw [waiting]
  exact states.queued r (state ▸ queued)

/-- What a new rule preserves. -/
theorem States.alloc (states : States g w) {rule : ObjRule}
    (rules : w'.rules = w.rules.alloc rule) (pins : w'.pinChanges = w.pinChanges)
    (waiting : w'.waiting = w.waiting) (state : rule.state = .new)
    (task : ∀ p, g.task = some (.update p) → g'.task = some (.update p)) : States g' w' where
  ok p live ok := by
    rw [World.Live, rules, Heap.cell_alloc] at live
    rw [rules, Heap.cell_alloc] at ok ⊢
    by_cases here : p = w.rules.next
    · rw [if_pos here, state] at ok
      cases ok
    · rw [if_neg here] at live ok ⊢
      exact (states.ok p live ok).imp_right (task p)
  queued p queued := by
    rw [rules, Heap.cell_alloc] at queued
    by_cases here : p = w.rules.next
    · rw [if_pos here, state] at queued
      cases queued
    · rw [if_neg here] at queued
      rw [waiting]
      exact states.queued p queued
  pinned zero p ok := by
    rw [rules, Heap.cell_alloc] at ok
    rw [pins] at zero
    by_cases here : p = w.rules.next
    · rw [if_pos here, state] at ok
      cases ok
    · rw [if_neg here] at ok
      exact states.pinned zero p ok

/-- What is preserved where no rule changes. -/
theorem States.keep (states : States g w) (rules : w'.rules = w.rules)
    (pins : w'.pinChanges = w.pinChanges) (waiting : w'.waiting = w.waiting)
    (task : ∀ p, g.task = some (.update p) → (w.rules.cell p).state = .ok →
      g'.task = some (.update p)) : States g' w' where
  ok p live state := by
    rw [World.Live, rules] at live
    rw [rules] at state ⊢
    exact (states.ok p live state).imp_right fun exempt => task p exempt state
  queued p := by
    rw [rules, waiting]
    exact states.queued p
  pinned := by
    rw [rules, pins]
    exact states.pinned

/-- Every effect keeps the states in order. -/
theorem Effect.states (states : States g w) (effect : Effect g w g' w') :
    States g' w' := by
  cases effect with
  | @ref _ _ r live =>
    exact states.rewrite (rules_setRule ..) rfl rfl (fun _ _ same => same) rfl fun _ state =>
      (states.ok r live state).imp_left fun agrees => ⟨agrees.present, agrees.same⟩
  | @unref _ _ r _ live _ =>
    exact states.rewrite (rules_setRule ..) rfl rfl (fun _ _ same => same) rfl fun _ state =>
      (states.ok r live state).imp_left fun agrees => ⟨agrees.present, agrees.same⟩
  | unwant free _ _ _ _ _ _ =>
    rw [Ghost.Free] at free
    exact states.rewrite (rules_setRule ..) rfl rfl (fun _ _ same => by simp [free] at same) rfl
      fun _ _ => .inr rfl
  | @reap _ _ _ r _ _ _ reaped =>
    obtain ⟨rfl, -⟩ := objRuleReap_ok reaped
    refine states.rewrite (r := r) (f := ObjRule.reaped) (by simp [World.reaped, World.setRule])
      ?_ ?_ (fun _ _ same => same) rfl fun kind _ => by cases kind
    · simp [World.reaped, World.setRule]
    · simp [World.waiting, World.reaped, World.setRule]
  | @skip _ _ r free skips =>
    rw [Ghost.Free] at free
    refine states.keep rfl rfl rfl fun p same state => ?_
    have here : r = p := by simpa using same
    subst here
    cases skips with
    | pinned zero => exact absurd state (states.pinned zero r)
    | queued queued => rw [queued] at state; cases state
    | new _ _ new => rw [new] at state; cases state
  | @settle _ _ r state free live unpinned idle settles =>
    refine states.modify (rules_setRule ..) rfl (fun _ member _ => member)
      (fun p apart same => absurd (by simpa using same) apart.symm) (fun queued => ?_)
      (fun zero => absurd zero unpinned) fun _ ok => .inl ?_
    · cases settles <;> cases queued
    · cases settles <;> cases ok
      exact ⟨‹_›, ‹_›⟩
  | @confirm _ _ r _ free live unpinned idle present same target =>
    exact states.modify (rules_setRule ..) rfl (fun _ member _ => member)
      (fun p apart same => absurd (by simpa using same) apart.symm) (fun queued => by cases queued)
      (fun zero => absurd zero unpinned) fun _ _ => .inl ⟨present, same⟩
  | @schedule _ _ tca free live unpinned idle _ _ _ =>
    have waiting : (w.scheduled tca).waiting = w.waiting ++ [tca] := waiting_enqueue w.queue tca
    exact states.modify (w.rules_scheduled tca) rfl
      (fun _ member _ => waiting ▸ List.mem_append_left _ member)
      (fun p apart same => absurd (by simpa using same) apart.symm)
      (fun _ => ⟨tca, waiting ▸ List.mem_append_right _ List.mem_cons_self, rfl⟩)
      (fun zero => absurd zero unpinned) fun _ ok => by cases ok
  | @execute _ _ tca queue free started live =>
    rw [Ghost.Free] at free
    have order := waiting_queueProcess started
    have waiting : (w.executed tca queue).waiting = { w with queue }.waiting := by
      simp only [World.executed, World.waiting]
      split <;> rfl
    refine states.modify (w.rules_executed tca queue) rfl (fun other member apart => ?_)
      (fun p _ same => by simp [free] at same) (fun queued => by cases queued)
      (fun _ ok => by cases ok) fun _ ok => by cases ok
    rw [order] at member
    rw [waiting]
    exact (List.mem_cons.mp member).resolve_left fun same => apart (same ▸ rfl)
  | complete _ completed =>
    exact states.keep rfl rfl (waiting_handleQueueCompleted completed) fun _ same _ => same
  | leave _ _ => exact states.keep rfl rfl rfl fun _ same _ => same
  | ignore _ _ _ => exact states.keep rfl rfl rfl fun _ same _ => by cases same
  | found _ _ _ _ _ _ =>
    exact states.rewrite (rules_setRule ..) rfl rfl (fun _ _ same => by cases same) rfl
      fun _ _ => .inr rfl
  | @vanish _ _ r _ _ _ _ _ live =>
    refine states.rewrite (rules_setRule ..) rfl rfl (fun _ _ same => by cases same) rfl
      fun _ state => .inr ?_
    have agrees := (states.ok r live state).resolve_right fun same => by cases same
    rw [Ghost.next, if_neg fun unwanted => agrees.present (agrees.same ▸ unwanted)]
  | discover _ _ inPos inLaf =>
    obtain ⟨_, pos, laf, -, -, -, -, -, rfl⟩ := objRuleNew_alloc inPos inLaf
    exact states.alloc rfl rfl rfl rfl fun _ same => by cases same
  | @adopt _ _ r _ free _ _ _ _ _ =>
    rw [Ghost.Free] at free
    exact states.rewrite (w.rules_adopted ..) rfl rfl (fun _ _ same => by cases same) rfl
      fun _ _ => .inr rfl
  | @place _ _ placed w' chainNo prio tcr free _ place inserted =>
    rw [Ghost.Free] at free
    obtain ⟨⟨chainTree, rfl⟩, -⟩ := returns_iff.mp (schedBasicPlace_returns tcr w) _ place
    obtain ⟨-, linked, -, rfl⟩ := objRulePosInsert_alloc (w := { w with chainTree }) inserted
    exact states.alloc rfl rfl rfl rfl fun _ same => by cases same
  | decline _ _ _ _ => exact states.keep rfl rfl rfl fun _ same _ => by cases same
  | begin _ _ => exact states.keep rfl rfl rfl fun _ same _ => same
  | demand free _ _ =>
    rw [Ghost.Free] at free
    exact states.keep rfl rfl rfl fun _ same _ => by simp [free] at same
  | aim _ _ _ => exact states.keep rfl rfl rfl fun _ same _ => same
  | reaim _ _ _ => exact states.keep rfl rfl rfl fun _ same _ => same
  | plant _ _ => exact states.keep rfl rfl rfl fun _ same _ => by simpa using same
  | finish _ _ => exact states.keep rfl rfl rfl fun _ same _ => same
  | shut _ _ => exact states.keep rfl rfl rfl fun _ same _ => same

end Preservation

end FlowerRoute
