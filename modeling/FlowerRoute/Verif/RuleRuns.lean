import FlowerRoute.Verif.RuleStates

/-!
# Runs of the rule objects, event by event

An invariant of the effects that the first move of every event keeps holds in every state of a
run.
-/

namespace FlowerRoute

open Outcome

/-- What the functions under way hold between two events. -/
def Owners.ghost (s : Owners) : Ghost := { loans := s.loans }

/-- What `obj_rule_remove_pin` needs of an invariant. -/
structure Unpins (inv : Ghost → World → Prop) (g : Ghost) : Prop extends Keeps inv where
  visit : ∀ {w : World}, ∀ r ∈ w.posTree.toList, inv g w → inv (g.ask (.update r)) w
  raise : ∀ {w : World} (pin : Nat), pin ≠ 0 → inv g w → inv g { w with pinChanges := pin }

/-- What the first moves of the events need of an invariant. -/
structure Carries (good : Owners → RuleEvent → Prop) (inv : Ghost → World → Prop) : Prop
    extends Keeps inv where
  staticWant : ∀ {s : Owners} {chainNo : UInt32} {prio : UInt16} {tcr : TcRule} {w : World},
    inv s.ghost s.world → good s (.staticWant chainNo prio tcr) →
    objRulePosLookup chainNo prio s.world = .ok none →
    objRulePosInsert s.world.rules.next (objRuleAlloc {
      chainNo, prio, type := .static, wantTcr := some tcr } s.world).2 = .ok w →
    inv (s.ghost.ask (.update s.world.rules.next)) w
  request : ∀ {s : Owners} {tcr : TcRule}, inv s.ghost s.world → good s (.request tcr) →
    inv (s.ghost.ask (.request tcr)) s.world
  uninstall : ∀ {s : Owners} {r : RuleId}, inv s.ghost s.world → good s (.uninstall r) →
    s.world.Live r → inv (s.ghost.ask (.update r))
      (s.world.setRule r fun rule => { rule with wantTcr := none })
  removePin : ∀ {s : Owners} (bound : Nat), inv s.ghost s.world → good s .removePin →
    s.world.pinChanges = 0 → Ends Admitted (fun w => inv s.ghost w ∧ w.pinChanges = 3)
      (objRuleRemovePin (calls bound) bound s.world)
  message : ∀ {s : Owners} {nlmsgType : UInt16} {chainNo : UInt32} {prio : UInt16} {tcr : TcRule},
    inv s.ghost s.world → good s (.message nlmsgType chainNo prio tcr) →
    inv (s.ghost.ask (.report
      ⟨chainNo, prio, if nlmsgType = rtmDeltfilter then none else some tcr⟩)) s.world
  completed : ∀ {s : Owners} {tca : TcAction} {queue : Queue TcAction},
    inv s.ghost s.world → good s .completed →
    s.world.queue.handleQueueCompleted s.world.queue.conn = .ok (tca, queue) →
    inv s.ghost { s.world with queue }
  notified : ∀ {s : Owners} {note : Note} {notes : List Note},
    inv s.ghost s.world → good s .notified → s.world.kernel.notes = note :: notes →
    inv (s.ghost.ask (.report note)) { s.world with kernel := { s.world.kernel with notes } }
  foreign : ∀ {s : Owners} {note : Note}, inv s.ghost s.world → good s (.foreign note) →
    inv s.ghost { s.world with kernel := s.world.kernel.change note }
  echoing : ∀ {s : Owners} {echoes : Bool}, inv s.ghost s.world → good s (.echoing echoes) →
    inv s.ghost { s.world with kernel := { s.world.kernel with echoes } }

section Events

variable {good : Owners → RuleEvent → Prop} {inv : Ghost → World → Prop} {g : Ghost} {w : World}

/-- A caller that keeps nothing back only has to have nothing to go on with. -/
theorem Ghost.Free.ready (free : g.Free) : Held.Ready {} g :=
  ⟨⟨Multiset.zero_le _, Multiset.zero_le _⟩, free⟩

/-- Between two events nothing is left to do. -/
theorem Owners.ready (s : Owners) : Held.Ready {} s.ghost := Ghost.Free.ready rfl

/-- The next rule by position is a rule of the tree. -/
theorem posNext_mem {r p : RuleId} {next : Option RuleId} (found : posNext r w = .ok next)
    (later : p ∈ next) : p ∈ w.posTree.toList := by
  obtain ⟨_, -, after⟩ := bind_returned found
  exact SearchTree.mem_of_next ((Except.ok.inj after).trans later)

/-- One pass of `obj_rule_remove_pin` keeps an invariant. -/
theorem objRuleRemovePinPass_keeps (unpins : Unpins inv g) (depth : Nat)
    (ready : Held.Ready {} g) (rounds : Nat) (r : Option RuleId)
    (inside : ∀ p ∈ r, p ∈ w.posTree.toList) (before : inv g w) :
    Ends Admitted (fun w' => inv g w' ∧ w'.pinChanges = w.pinChanges)
      (objRuleRemovePinPass (calls depth) rounds r w) := by
  induction rounds generalizing r w with
  | zero =>
    cases r with
    | none => exact ⟨before, rfl⟩
    | some r => exact Fault.noConfusion
  | succ rounds ih =>
    cases r with
    | none => exact ⟨before, rfl⟩
    | some r =>
      have calls := calls_effectful unpins.toKeeps depth
      have visited := unpins.visit r (inside r rfl) before
      refine Ends.bind (calls.updateState w r ready visited) fun w' effects => ?_
      have kept := effects.kept unpins.toKeeps visited
      refine ends_bind_of (faults_bind (clean_rule r) fun _ => trivial) fun next found => ?_
      refine (ih next (fun p later => posNext_mem found later) kept).mono
        fun w'' ⟨kept, same⟩ => ⟨kept, ?_⟩
      rw [same, effects.sameObjects.pinChanges]

/-- `obj_rule_remove_pin` keeps an invariant. -/
theorem objRuleRemovePin_keeps (unpins : Unpins inv g) (depth : Nat) (ready : Held.Ready {} g)
    (rounds : Nat) (pinned : w.pinChanges = 0) (before : inv g w) :
    Ends Admitted (fun w' => inv g w' ∧ w'.pinChanges = 3)
      (objRuleRemovePin (calls depth) rounds w) := by
  have pass : ∀ (w : World) (pin : Nat), inv g { w with pinChanges := pin } →
      Ends Admitted (fun w' => inv g w' ∧ w'.pinChanges = pin)
        (objRuleRemovePinPass (calls depth) rounds w.posTree.toList.head?
          { w with pinChanges := pin }) := fun w pin kept =>
    objRuleRemovePinPass_keeps unpins depth ready rounds _
      (fun _ first => List.mem_of_mem_head? first) kept
  have same : { w with pinChanges := 0 } = w := by rw [← pinned]
  rw [objRuleRemovePin, if_neg (by omega)]
  simp only [List.foldlM_cons, List.foldlM_nil, bind_pure]
  refine Ends.bind (pass w 0 (same ▸ before)) fun w ⟨kept, _⟩ => ?_
  refine Ends.bind (pass w 1 (unpins.raise 1 Nat.one_ne_zero kept)) fun w ⟨kept, _⟩ => ?_
  refine Ends.bind (pass w 2 (unpins.raise 2 (by decide) kept)) fun w ⟨kept, _⟩ => ?_
  exact pass w 3 (unpins.raise 3 (by decide) kept)

/-- What holds between two events: the invariant, and no pins are half removed. -/
structure Between (inv : Ghost → World → Prop) (s : Owners) : Prop where
  kept : inv s.ghost s.world
  pins : s.world.pinChanges = 0 ∨ s.world.pinChanges = 3

/-- Effects lead from one state between two events to another. -/
theorem Between.of_effects {w' : World} {loans : Multiset RuleId}
    (effects : Effects {} g w { loans } w') (keeps : Keeps inv) (before : inv g w)
    (pins : w.pinChanges = 0 ∨ w.pinChanges = 3) :
    Between inv { world := w', loans } where
  kept := effects.kept keeps before
  pins := by
    rw [effects.sameObjects.pinChanges]
    exact pins

/-- Every event of a run keeps what holds between two events. -/
theorem RuleEvent.run_keeps (carries : Carries good inv) {s : Owners} {e : RuleEvent}
    (allowed : e.Allowed s) (meets : good s e) (before : Between inv s) (bound : Nat) :
    Ends Admitted (Between inv) (e.run bound s) := by
  have keeps := carries.toKeeps
  have calls := calls_effectful keeps bound
  obtain ⟨kept, pins⟩ := before
  -- the effects of a call, from the first move of the event on
  have run : ∀ {g : Ghost} {w : World} {result : Except Fault World}, inv g w →
      w.pinChanges = s.world.pinChanges → Does inv {} g w s.ghost result →
      Ends Admitted (fun w' => Between inv { s with world := w' }) result :=
    fun moved same does => (does moved).mono fun w' effects =>
      .of_effects effects keeps moved (same ▸ pins)
  cases e with
  | staticWant chainNo prio tcr =>
    refine Ends.bind (?_ : Ends Admitted (fun w' => Between inv { s with world := w' }) _)
      fun _ done => done
    refine ends_bind_of (clean_objRulePosLookup chainNo prio) fun found search => ?_
    refine ends_require_admitted Fault.noConfusion fun free => ?_
    subst free
    refine ends_bind_of (clean_objRulePosInsert _) fun w inserted => ?_
    refine run (carries.staticWant kept meets search inserted) ?_
      (calls.updateState w _ s.ready)
    obtain ⟨-, linked, -, rfl⟩ := objRulePosInsert_alloc inserted
    rfl
  | request tcr =>
    have asked := carries.request kept meets
    refine Ends.bind (objRuleRequest_does keeps calls tcr s.ready asked)
      fun result requested => ?_
    obtain ⟨found, w'⟩ := result
    cases found with
    | none => exact .of_effects requested.1 keeps asked pins
    | some r => exact .of_effects requested.1 keeps asked pins
  | uninstall r =>
    refine Ends.bind (?_ : Ends Admitted (fun w' => Between inv { s with world := w' }) _)
      fun _ done => done
    refine ends_rule fun live => ?_
    exact run (carries.uninstall kept meets live) rfl (calls.updateState _ r s.ready)
  | ref r =>
    refine ends_bind_of (clean_objRuleRef r) fun w' counted => ?_
    obtain ⟨live, rfl⟩ := objRuleRef_ok counted
    have effects : Effects {} s.ghost s.world { loans := r ::ₘ s.loans } _ :=
      .one (.ref live) s.ready.toWithin (s.ready.toWithin.lend r)
    exact .of_effects effects keeps kept pins
  | unref r =>
    have held : s.ghost = Ghost.lend { loans := s.loans.erase r } r := by
      rw [Ghost.lend, Multiset.cons_erase allowed, Owners.ghost]
    rw [held] at kept
    refine Ends.bind (objRuleUnref_does keeps calls r (g := { loans := s.loans.erase r })
      (Ghost.Free.ready rfl) kept) fun w' effects => ?_
    exact .of_effects effects keeps kept pins
  | removePin =>
    by_cases zero : s.world.pinChanges = 0
    · refine Ends.bind (carries.removePin bound kept meets zero) fun w' both => ?_
      obtain ⟨kept', three⟩ := both
      exact ⟨kept', .inr three⟩
    · have three : s.world.pinChanges = 3 := pins.resolve_left zero
      rw [RuleEvent.run, objRuleRemovePin, if_pos (by omega)]
      exact ⟨kept, pins⟩
  | message nlmsgType chainNo prio tcr =>
    refine Ends.bind (?_ : Ends Admitted (fun w' => Between inv { s with world := w' }) _)
      fun _ done => done
    have asked := carries.message kept meets
    rw [objRuleNetlink]
    split
    · next gone =>
      rw [if_pos gone] at asked
      exact run asked rfl (objRuleNetlinkGone_does keeps calls chainNo prio tcr s.ready)
    · next found =>
      rw [if_neg found] at asked
      exact run asked rfl (objRuleNetlinkFound_does keeps calls chainNo prio tcr s.ready)
  | completed =>
    refine Ends.bind (?_ : Ends Admitted (fun w' => Between inv { s with world := w' }) _)
      fun _ done => done
    refine ends_bind_of (clean_handleQueueCompleted ..) fun result completed => ?_
    obtain ⟨tca, queue⟩ := result
    have moved := carries.completed kept meets completed
    dsimp only
    split
    · exact run moved rfl (calls.processLoop _ s.ready)
    · exact ⟨moved, pins⟩
  | notified =>
    rw [RuleEvent.run]
    cases notes : s.world.kernel.notes with
    | nil => exact ⟨kept, pins⟩
    | cons note rest =>
      refine Ends.bind (?_ : Ends Admitted (fun w' => Between inv { s with world := w' }) _)
        fun _ done => done
      exact run (carries.notified kept meets notes) rfl (objRuleNotified_does keeps calls note s.ready)
  | foreign note => exact ⟨carries.foreign (s := s) kept meets, pins⟩
  | echoing echoes => exact ⟨carries.echoing (s := s) kept meets, pins⟩

/-- What holds between two events holds in every state of a run. -/
theorem Owners.Reached.between (carries : Carries good inv) {s : Owners}
    (reached : Reached good w s) (pins : w.pinChanges = 0) (initially : inv {} w) :
    Between inv s := by
  induction reached with
  | start => exact ⟨initially, .inl pins⟩
  | step _ allowed meets ran ih => exact (RuleEvent.run_keeps carries allowed meets ih _).of_ok ran

end Events

end FlowerRoute
