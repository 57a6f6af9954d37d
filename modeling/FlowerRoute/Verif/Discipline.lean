import FlowerRoute.Verif.Positions
import FlowerRoute.Verif.StateMachine

/-!
# The discipline of install requests

A queued install carries what its rule wants, and a rule whose install has been sent and not yet
been reported is not sent another one, as long as no owner uninstalls a rule that waits for its
install, no removal is reported where an install is open, and the pins are removed when nothing
that is wanted is absent.
-/

namespace FlowerRoute

open Outcome

/-- The request installs a rule. -/
def TcAction.Installs (tca : TcAction) : Prop := tca.tcr ≠ none

instance (tca : TcAction) : Decidable tca.Installs := inferInstanceAs (Decidable (tca.tcr ≠ none))

/-- A report of what an action installs, at its position. -/
def Note.Confirms (note : Note) (tca : TcAction) : Prop :=
  note.filter = tca.tcr ∧ note.chainNo = tca.chainNo ∧ note.prio = tca.prio

instance (note : Note) (tca : TcAction) : Decidable (note.Confirms tca) :=
  inferInstanceAs (Decidable (_ ∧ _ ∧ _))

/-- The open installs after one more event. -/
def openAfter (rejects : Bool) (opens : List TcAction) : TcEvent → List TcAction
  | .queued _ _ => opens
  | .sent tca filter _ =>
    if tca.Installs ∧ ¬ (rejects = true ∧ filter ≠ none) then tca :: opens else opens
  | .heard note => opens.filter fun tca => ¬ note.Confirms tca

/-- The installs that were sent and neither refused nor confirmed by a report since. -/
def openInstalls (rejects : Bool) (log : List TcEvent) : List TcAction :=
  log.foldl (openAfter rejects) []

/-- Every install that was sent is what its rule wanted then, and no install of its rule was
open. -/
def Disciplined (rejects : Bool) (log : List TcEvent) : Prop :=
  ∀ before tca filter want after, log = before ++ .sent tca filter want :: after → tca.Installs →
    want = tca.tcr ∧ ∀ other ∈ openInstalls rejects before, other.data ≠ tca.data

/-- The events that keep the discipline of install requests. -/
def RuleEvent.Careful (s : Owners) : RuleEvent → Prop
  | .uninstall r => ∀ tca ∈ s.world.waiting, tca.data = r → ¬ tca.Installs
  | .removePin => s.world.pinChanges = 0 → ∀ r ∈ s.world.posTree.toList,
      (s.world.rules.cell r).wantTcr ≠ none → (s.world.rules.cell r).haveTcr ≠ none
  | .message nlmsgType chainNo prio _ => nlmsgType = rtmDeltfilter →
      ∀ tca ∈ openInstalls s.world.kernel.rejects s.world.log,
        tca.chainNo = chainNo → tca.prio = prio → (s.world.rules.cell tca.data).wantTcr = none
  | .notified => ∀ note ∈ s.world.kernel.notes.head?, note.filter = none →
      ∀ tca ∈ openInstalls s.world.kernel.rejects s.world.log,
        tca.chainNo = note.chainNo → tca.prio = note.prio →
        (s.world.rules.cell tca.data).wantTcr = none
  | .echoing echoes => echoes = false
  | _ => True

instance (s : Owners) (e : RuleEvent) : Decidable (e.Careful s) :=
  match e with
  | .uninstall r => inferInstanceAs (Decidable (∀ tca ∈ s.world.waiting, tca.data = r → _))
  | .removePin => inferInstanceAs (Decidable (s.world.pinChanges = 0 → _))
  | .message nlmsgType _ _ _ => inferInstanceAs (Decidable (nlmsgType = rtmDeltfilter → _))
  | .notified => inferInstanceAs (Decidable (∀ note ∈ s.world.kernel.notes.head?, _))
  | .echoing echoes => inferInstanceAs (Decidable (echoes = false))
  | .staticWant .. | .request _ | .ref _ | .unref _ | .completed | .foreign _ =>
    inferInstanceAs (Decidable True)

section Logs

variable {rejects : Bool} {log : List TcEvent}

@[simp] theorem openInstalls_append (event : TcEvent) :
    openInstalls rejects (log ++ [event]) = openAfter rejects (openInstalls rejects log) event := by
  simp [openInstalls]

/-- One more event that is no install. -/
theorem Disciplined.append (disciplined : Disciplined rejects log) {event : TcEvent}
    (other : ∀ tca filter want, event = .sent tca filter want → tca.Installs →
      want = tca.tcr ∧ ∀ other ∈ openInstalls rejects log, other.data ≠ tca.data) :
    Disciplined rejects (log ++ [event]) := by
  intro before tca filter want after split installs
  rcases List.eq_nil_or_concat after with rfl | ⟨after, last, rfl⟩
  · obtain ⟨rfl, same⟩ := List.append_inj' split rfl
    cases same
    exact other tca filter want rfl installs
  · rw [List.concat_eq_append, ← List.cons_append, ← List.append_assoc] at split
    exact disciplined before tca filter want after (List.append_inj' split rfl).1 installs

end Logs

/-- The installs that are open in a world. -/
def World.opens (w : World) : List TcAction := openInstalls w.kernel.rejects w.log

/-- What keeps install requests in order: queued installs carry what their rules want, and a rule
with an open install is left alone unless nobody wants it any more. -/
structure Prudent (g : Ghost) (w : World) : Prop where
  silent : w.kernel.echoes = false
  disciplined : Disciplined w.kernel.rejects w.log
  wants : ∀ tca ∈ w.waiting, tca.Installs → (w.rules.cell tca.data).wantTcr = tca.tcr
  waitPlace : ∀ tca ∈ w.waiting, tca.chainNo = (w.rules.cell tca.data).chainNo ∧
    tca.prio = (w.rules.cell tca.data).prio
  openPlace : ∀ tca ∈ w.opens, tca.data < w.rules.next ∧
    tca.chainNo = (w.rules.cell tca.data).chainNo ∧ tca.prio = (w.rules.cell tca.data).prio
  idle : ∀ tca ∈ w.opens, (w.rules.cell tca.data).wantTcr ≠ none →
    (g.task = some (.update tca.data) → (w.rules.cell tca.data).haveTcr ≠ none) ∧
      ∀ other ∈ w.waiting, other.data = tca.data → ¬ other.Installs
  found : ∀ tca ∈ w.opens, tca.data ∉ w.lafTree.toList
  gone : ∀ note, g.task = some (.report note) → note.filter = none → ∀ tca ∈ w.opens,
    tca.chainNo = note.chainNo → tca.prio = note.prio → (w.rules.cell tca.data).wantTcr = none
  pinned : w.pinChanges = 0 → w.opens = [] ∧ w.waiting = []

section Preservation

variable {g g' : Ghost} {w w' : World}

/-- What is preserved where no rule changes. -/
theorem Prudent.keep (prudent : Prudent g w) (rules : w'.rules = w.rules)
    (echoes : w'.kernel.echoes = w.kernel.echoes)
    (disciplined : Disciplined w'.kernel.rejects w'.log)
    (opens : ∀ tca ∈ w'.opens, tca ∈ w.opens) (waiting : w'.waiting = w.waiting)
    (tree : w'.lafTree = w.lafTree) (pins : w'.pinChanges = 0 → w.pinChanges = 0)
    (update : ∀ r, g'.task = some (.update r) → g.task = some (.update r))
    (report : ∀ note, g'.task = some (.report note) → g.task = some (.report note)) :
    Prudent g' w' where
  silent := echoes.trans prudent.silent
  disciplined := disciplined
  wants := by
    rw [waiting, rules]
    exact prudent.wants
  waitPlace := by
    rw [waiting, rules]
    exact prudent.waitPlace
  openPlace tca member := by
    rw [rules]
    exact prudent.openPlace tca (opens tca member)
  idle tca member wanted := by
    rw [rules] at wanted ⊢
    rw [waiting]
    obtain ⟨present, alone⟩ := prudent.idle tca (opens tca member) wanted
    exact ⟨fun asked => present (update _ asked), alone⟩
  found tca member := by
    rw [tree]
    exact prudent.found tca (opens tca member)
  gone note asked removal tca member := by
    rw [rules]
    exact prudent.gone note (report note asked) removal tca (opens tca member)
  pinned zero := by
    obtain ⟨none, idle⟩ := prudent.pinned (pins zero)
    refine ⟨List.eq_nil_iff_forall_not_mem.mpr fun tca member => ?_, waiting.trans idle⟩
    have before := opens tca member
    rw [none] at before
    cases before

/-- What a change of one rule preserves. -/
theorem Prudent.write (prudent : Prudent g w) {r : RuleId} {f : ObjRule → ObjRule}
    (rules : w'.rules = w.rules.modify r f) (echoes : w'.kernel.echoes = w.kernel.echoes)
    (disciplined : Disciplined w'.kernel.rejects w'.log)
    (place : ∀ rule, (f rule).chainNo = rule.chainNo ∧ (f rule).prio = rule.prio)
    (opens : ∀ tca ∈ w'.opens, tca ∈ w.opens ∨ tca ∈ w.waiting ∧ tca.data = r ∧
      r < w.rules.next ∧ r ∉ w.lafTree.toList)
    (waiting : ∀ tca ∈ w'.waiting, tca ∈ w.waiting ∨ tca.data = r ∧
      tca.chainNo = (w.rules.cell r).chainNo ∧ tca.prio = (w.rules.cell r).prio ∧
      (tca.Installs → (f (w.rules.cell r)).wantTcr = tca.tcr))
    (tree : ∀ p ∈ w'.lafTree.toList, p ∈ w.lafTree.toList)
    (wants : ∀ tca ∈ w'.waiting, tca ∈ w.waiting → tca.data = r → tca.Installs →
      (f (w.rules.cell r)).wantTcr = (w.rules.cell r).wantTcr)
    (idle : ∀ tca ∈ w'.opens, tca.data = r → (f (w.rules.cell r)).wantTcr ≠ none →
      (g'.task = some (.update r) → (f (w.rules.cell r)).haveTcr ≠ none) ∧
        ∀ other ∈ w'.waiting, other.data = r → ¬ other.Installs)
    (update : ∀ p, p ≠ r → g'.task = some (.update p) → g.task = some (.update p))
    (report : ∀ note, g'.task = some (.report note) → g.task = some (.report note) ∧
      (f (w.rules.cell r)).wantTcr = (w.rules.cell r).wantTcr ∧ ∀ tca ∈ w'.opens, tca ∈ w.opens)
    (pinned : w'.pinChanges = 0 → w'.opens = [] ∧ w'.waiting = []) : Prudent g' w' := by
  have spot : ∀ p, (w'.rules.cell p).chainNo = (w.rules.cell p).chainNo ∧
      (w'.rules.cell p).prio = (w.rules.cell p).prio := fun p => by
    rw [rules]
    exact ⟨Heap.cell_modify_field _ _ _ (·.chainNo) fun rule => (place rule).1,
      Heap.cell_modify_field _ _ _ (·.prio) fun rule => (place rule).2⟩
  have here : w'.rules.cell r = f (w.rules.cell r) := by rw [rules, Heap.cell_modify_same]
  have elsewhere : ∀ p, p ≠ r → w'.rules.cell p = w.rules.cell p := fun p apart => by
    rw [rules, Heap.cell_modify_ne _ _ apart]
  refine ⟨echoes.trans prudent.silent, disciplined, fun tca member installs => ?_,
    fun tca member => ?_, fun tca member => ?_, fun tca member wanted => ?_, fun tca member => ?_,
    fun note asked removal tca member chain prio => ?_, pinned⟩
  · by_cases same : tca.data = r
    · rw [same, here]
      rcases waiting tca member with before | ⟨-, -, -, want⟩
      · rw [wants tca member before same installs, ← same]
        exact prudent.wants tca before installs
      · exact want installs
    · rw [elsewhere _ same]
      exact prudent.wants tca ((waiting tca member).resolve_right fun new => same new.1) installs
  · rw [(spot _).1, (spot _).2]
    rcases waiting tca member with before | ⟨same, chain, prio, -⟩
    · exact prudent.waitPlace tca before
    · rw [same]
      exact ⟨chain, prio⟩
  · rw [(spot _).1, (spot _).2, rules, Heap.next_modify]
    rcases opens tca member with before | ⟨waits, same, bound, -⟩
    · exact prudent.openPlace tca before
    · exact ⟨same ▸ bound, prudent.waitPlace tca waits⟩
  · by_cases same : tca.data = r
    · rw [same, here] at wanted ⊢
      exact idle tca member same wanted
    · rw [elsewhere _ same] at wanted ⊢
      have before := (opens tca member).resolve_right fun new => same new.2.1
      obtain ⟨present, alone⟩ := prudent.idle tca before wanted
      refine ⟨fun asked => present (update _ same asked), fun other waits here => ?_⟩
      refine alone other ((waiting other waits).resolve_right fun new => ?_) here
      exact same (here.symm.trans new.1)
  · intro inside
    rcases opens tca member with before | ⟨-, same, -, outside⟩
    · exact prudent.found tca before (tree _ inside)
    · exact outside (same ▸ tree _ inside)
  · obtain ⟨asked, want, old⟩ := report note asked
    have unwanted := prudent.gone note asked removal tca (old tca member) chain prio
    by_cases same : tca.data = r
    · rw [same] at unwanted ⊢
      rw [here, want, unwanted]
    · rw [elsewhere _ same]
      exact unwanted

/-- What a new rule preserves. -/
theorem Prudent.alloc (prudent : Prudent g w) (waits : ∀ tca ∈ w.waiting, tca.data < w.rules.next)
    {rule : ObjRule} (rules : w'.rules = w.rules.alloc rule)
    (echoes : w'.kernel.echoes = w.kernel.echoes)
    (disciplined : Disciplined w'.kernel.rejects w'.log)
    (opens : ∀ tca ∈ w'.opens, tca ∈ w.opens) (waiting : w'.waiting = w.waiting)
    (tree : ∀ p ∈ w'.lafTree.toList, p = w.rules.next ∨ p ∈ w.lafTree.toList)
    (pins : w'.pinChanges = w.pinChanges)
    (update : ∀ p, g'.task = some (.update p) → p = w.rules.next)
    (report : ∀ note, g'.task ≠ some (.report note)) : Prudent g' w' := by
  have elsewhere : ∀ p, p < w.rules.next → w'.rules.cell p = w.rules.cell p := fun p old => by
    rw [rules, Heap.cell_alloc_ne _ _ (Nat.ne_of_lt old)]
  refine ⟨echoes.trans prudent.silent, disciplined, fun tca member installs => ?_,
    fun tca member => ?_, fun tca member => ?_, fun tca member wanted => ?_, fun tca member => ?_,
    fun note asked => absurd asked (report note), fun zero => ?_⟩
  · rw [waiting] at member
    rw [elsewhere _ (waits tca member)]
    exact prudent.wants tca member installs
  · rw [waiting] at member
    rw [elsewhere _ (waits tca member)]
    exact prudent.waitPlace tca member
  · obtain ⟨bound, place⟩ := prudent.openPlace tca (opens tca member)
    rw [elsewhere _ bound, rules, Heap.next_alloc]
    exact ⟨Nat.lt_succ_of_lt bound, place⟩
  · have bound := (prudent.openPlace tca (opens tca member)).1
    rw [elsewhere _ bound] at wanted ⊢
    rw [waiting]
    refine ⟨fun asked => ?_, (prudent.idle tca (opens tca member) wanted).2⟩
    exact absurd (update _ asked) (Nat.ne_of_lt bound)
  · intro inside
    have bound := (prudent.openPlace tca (opens tca member)).1
    rcases tree _ inside with new | old
    · exact absurd new (Nat.ne_of_lt bound)
    · exact prudent.found tca (opens tca member) old
  · rw [pins] at zero
    obtain ⟨none, idle⟩ := prudent.pinned zero
    refine ⟨List.eq_nil_iff_forall_not_mem.mpr fun tca member => ?_, waiting.trans idle⟩
    have before := opens tca member
    rw [none] at before
    cases before

/-- A change of one rule that is no business of its installs. -/
theorem Prudent.touch (prudent : Prudent g w) {r : RuleId} {f : ObjRule → ObjRule}
    (rules : w'.rules = w.rules.modify r f) (kernel : w'.kernel = w.kernel) (log : w'.log = w.log)
    (queue : w'.queue = w.queue) (tree : ∀ p ∈ w'.lafTree.toList, p ∈ w.lafTree.toList)
    (pins : w'.pinChanges = w.pinChanges)
    (place : ∀ rule, (f rule).chainNo = rule.chainNo ∧ (f rule).prio = rule.prio)
    (wants : ∀ tca ∈ w.waiting, tca.data = r → tca.Installs →
      (f (w.rules.cell r)).wantTcr = (w.rules.cell r).wantTcr)
    (idle : ∀ tca ∈ w.opens, tca.data = r → (f (w.rules.cell r)).wantTcr ≠ none →
      (w.rules.cell r).wantTcr ≠ none ∧
        (g'.task = some (.update r) → (f (w.rules.cell r)).haveTcr ≠ none))
    (update : ∀ p, p ≠ r → g'.task = some (.update p) → g.task = some (.update p))
    (report : ∀ note, g'.task = some (.report note) → g.task = some (.report note) ∧
      (f (w.rules.cell r)).wantTcr = (w.rules.cell r).wantTcr) : Prudent g' w' := by
  have opens : w'.opens = w.opens := by rw [World.opens, World.opens, kernel, log]
  have waiting : w'.waiting = w.waiting := by rw [World.waiting, World.waiting, queue]
  refine prudent.write rules (by rw [kernel]) (by rw [kernel, log]; exact prudent.disciplined) place
    (fun tca member => .inl (opens ▸ member)) (fun tca member => .inl (waiting ▸ member)) tree
    (fun tca _ => wants tca) (fun tca member same wanted => ?_) update
    (fun note asked => ⟨(report note asked).1, (report note asked).2, fun tca member =>
      opens ▸ member⟩) ?_
  · rw [opens] at member
    obtain ⟨wanted, present⟩ := idle tca member same wanted
    rw [waiting]
    exact ⟨present, same ▸ (prudent.idle tca member (same ▸ wanted)).2⟩
  · rw [pins, opens, waiting]
    exact prudent.pinned

/-- A rule without references has no action waiting for it. -/
theorem Sound.unused_waiting (sound : Sound g w) {r : RuleId}
    (unused : (w.rules.cell r).obj.refcnt = 0) : ∀ tca ∈ w.waiting, tca.data ≠ r := by
  rintro tca member rfl
  have claimed := claims_waiting (g := g) member
  have covered := sound.counts.covered tca.data
  rw [World.refcnt, unused] at covered
  omega

/-- A report opens no install and sends none. -/
theorem Prudent.hears (prudent : Prudent g w) (note : Note) :
    Disciplined w.kernel.rejects (w.hears note).log ∧
      (∀ tca ∈ (w.hears note).opens, tca ∈ w.opens ∧ ¬ note.Confirms tca) := by
  refine ⟨prudent.disciplined.append (fun _ _ _ same => nomatch same), fun tca member => ?_⟩
  rw [World.opens, World.hears, openInstalls_append, openAfter] at member
  have split := List.mem_filter.mp member
  exact ⟨split.1, by simpa using split.2⟩

/-- Every effect keeps install requests in order. -/
theorem Effect.prudent (orderly : Orderly g w) (prudent : Prudent g w)
    (effect : Effect g w g' w') : Prudent g' w' := by
  have sound := orderly.sound
  have bound : ∀ tca ∈ w.waiting, tca.data < w.rules.next := fun tca member =>
    (sound.counts.alive _ (sound.counts.live_waiting member)).2
  cases effect with
  | ref _ =>
    exact prudent.touch (rules_setRule ..) rfl rfl rfl (fun _ member => member) rfl
      (fun _ => ⟨rfl, rfl⟩) (fun _ _ _ _ => rfl)
      (fun tca member same wanted =>
        ⟨wanted, same ▸ (prudent.idle tca member (same ▸ wanted)).1⟩)
      (fun _ _ same => same) fun _ asked => ⟨asked, rfl⟩
  | unref _ _ =>
    exact prudent.touch (rules_setRule ..) rfl rfl rfl (fun _ member => member) rfl
      (fun _ => ⟨rfl, rfl⟩) (fun _ _ _ _ => rfl)
      (fun tca member same wanted =>
        ⟨wanted, same ▸ (prudent.idle tca member (same ▸ wanted)).1⟩)
      (fun _ _ same => same) fun _ asked => ⟨asked, rfl⟩
  | @unwant _ _ r free live unused _ _ _ _ =>
    exact prudent.touch (rules_setRule ..) rfl rfl rfl (fun _ member => member) rfl
      (fun _ => ⟨rfl, rfl⟩)
      (fun tca member same => absurd same (sound.unused_waiting unused tca member))
      (fun _ _ _ wanted => absurd rfl wanted) (fun p apart same => absurd (by simpa using same) apart.symm)
      fun _ asked => by cases asked
  | @reap _ _ _ r free live _ reaped =>
    obtain ⟨rfl, -, unused, -⟩ := objRuleReap_ok reaped
    rw [Ghost.Free] at free
    refine prudent.touch (r := r) (f := ObjRule.reaped) (by simp [World.reaped, World.setRule])
      (by simp [World.reaped, World.setRule]) (by simp [World.reaped, World.setRule])
      (by simp [World.reaped, World.setRule]) (fun p member => ?_)
      (by simp [World.reaped, World.setRule]) (fun _ => ⟨rfl, rfl⟩)
      (fun tca member same => absurd same (sound.unused_waiting unused tca member))
      (fun _ _ _ wanted => absurd rfl wanted) (fun _ _ same => same)
      fun _ asked => by simp [free] at asked
    simp only [World.reaped] at member
    split at member
    · rw [w.balancing.erase_toList] at member
      exact List.mem_of_mem_erase member
    · exact member
  | skip free _ =>
    rw [Ghost.Free] at free
    exact prudent.keep rfl rfl prudent.disciplined (fun _ member => member) rfl rfl id
      (fun _ asked => by simp [free] at asked) fun _ asked => by simp [free] at asked
  | @settle _ _ r state free _ _ _ _ =>
    rw [Ghost.Free] at free
    exact prudent.touch (rules_setRule ..) rfl rfl rfl (fun _ member => member) rfl
      (fun _ => ⟨rfl, rfl⟩) (fun _ _ _ _ => rfl)
      (fun _ _ _ wanted => ⟨wanted, fun asked => by simp [free] at asked⟩)
      (fun _ _ asked => by simp [free] at asked) fun _ asked => by simp [free] at asked
  | @confirm _ _ r t _ _ _ _ _ _ target =>
    rw [orderly.alone.target r] at target
    cases target
  | @schedule _ _ tca free live unpinned _ chain prio requests =>
    rw [Ghost.Free] at free
    have waiting : (w.scheduled tca).waiting = w.waiting ++ [tca] := waiting_enqueue w.queue tca
    have opens : (w.scheduled tca).opens = w.opens := by
      simp [World.opens, World.scheduled, World.setRule, openAfter]
    refine prudent.write (w.rules_scheduled tca) rfl
      (prudent.disciplined.append fun _ _ _ same => by cases same) (fun _ => ⟨rfl, rfl⟩)
      (fun tca member => .inl (opens ▸ member)) (fun other member => ?_) (fun _ member => member)
      (fun _ _ _ _ _ => rfl) (fun other member same wanted => ?_)
      (fun _ _ asked => by simp [free] at asked) (fun _ asked => by simp [free] at asked)
      fun zero => absurd zero unpinned
    · rw [waiting] at member
      refine (List.mem_append.mp member).imp_right fun new => ?_
      have same := List.mem_singleton.mp new
      subst same
      refine ⟨rfl, chain, prio, fun installs => ?_⟩
      generalize request : other.tcr = tcr at requests
      rw [TcAction.Installs, request] at installs
      cases requests with
      | install _ _ _ => rfl
      | uninstall _ _ _ => exact absurd rfl installs
    · rw [opens] at member
      obtain ⟨present, alone⟩ := prudent.idle other member (same ▸ wanted)
      refine ⟨fun asked => by simp [free] at asked, fun later waits here => ?_⟩
      rw [waiting] at waits
      rcases List.mem_append.mp waits with before | new
      · exact alone later before (here.trans same.symm)
      · have last := List.mem_singleton.mp new
        subst last
        intro installs
        generalize request : later.tcr = tcr at requests
        cases requests with
        | install _ absent _ => exact present (same ▸ rfl) (same ▸ absent)
        | uninstall _ _ _ => exact installs request
  | @execute g _ tca queue free started live =>
    have order := waiting_queueProcess started
    have waits : tca ∈ w.waiting := order ▸ List.mem_cons_self
    have waiting : (w.executed tca queue).waiting = { w with queue }.waiting := by
      simp only [World.executed, World.waiting]
      split <;> rfl
    have rejects : (w.executed tca queue).kernel.rejects = w.kernel.rejects := by
      simp only [World.executed, World.answer, Kernel.request]
      split <;> split <;> rfl
    have echoes : (w.executed tca queue).kernel.echoes = w.kernel.echoes := by
      simp only [World.executed, World.answer, Kernel.request]
      split <;> split <;> rfl
    have quiet : (((g.run g.routesUnderWay).lend tca.data).next (w.echo tca)).task = none := by
      simp [World.echo, prudent.silent]
    -- a rule that is sent an install has no open one
    have fresh : tca.Installs → ∀ other ∈ w.opens, other.data ≠ tca.data := by
      intro installs other member same
      have wanted : (w.rules.cell other.data).wantTcr ≠ none := by
        rw [same, prudent.wants tca waits installs]
        exact installs
      exact (prudent.idle other member wanted).2 tca waits same.symm installs
    have opens : ∀ other ∈ (w.executed tca queue).opens,
        other ∈ w.opens ∨ other = tca ∧ tca.Installs := by
      intro other member
      rw [World.opens, rejects] at member
      simp only [World.executed, openInstalls_append, openAfter] at member
      split at member
      · next sent => exact (List.mem_cons.mp member).elim (fun same => .inr ⟨same, sent.1⟩) .inl
      · exact .inl member
    refine prudent.write (w.rules_executed tca queue) echoes ?_ (fun _ => ⟨rfl, rfl⟩)
      (fun other member => ?_) (fun other member => ?_) (fun _ member => member)
      (fun _ _ _ _ _ => rfl) (fun _ _ _ _ => ⟨fun asked => ?_, fun other waits here => ?_⟩)
      (fun _ _ asked => ?_) (fun _ asked => ?_) fun zero => ?_
    · rw [rejects]
      refine prudent.disciplined.append fun sent filter want same installs => ?_
      cases same
      exact ⟨prudent.wants tca waits installs, fresh installs⟩
    · refine (opens other member).imp_right fun both => ?_
      obtain ⟨same, installs⟩ := both
      subst same
      refine ⟨waits, rfl, bound other waits, fun inside => ?_⟩
      have unwanted := (sound.lost.unwanted _ inside).2
      rw [prudent.wants other waits installs] at unwanted
      exact installs unwanted
    · rw [waiting] at member
      exact .inl (order ▸ List.mem_cons_of_mem _ member)
    · rw [quiet] at asked
      cases asked
    · rw [waiting] at waits
      have distinct := sound.waits.distinct
      rw [order, List.map_cons, List.nodup_cons] at distinct
      exact absurd (List.mem_map.mpr ⟨other, waits, here⟩) distinct.1
    · rw [quiet] at asked
      cases asked
    · rw [quiet] at asked
      cases asked
    · have idle := (prudent.pinned zero).2
      rw [idle] at waits
      cases waits
  | complete _ completed =>
    exact prudent.keep rfl rfl prudent.disciplined (fun _ member => member)
      (waiting_handleQueueCompleted completed) rfl id (fun _ asked => asked) fun _ asked => asked
  | leave _ _ =>
    exact prudent.keep rfl rfl prudent.disciplined (fun _ member => member) rfl rfl id
      (fun _ asked => asked) fun _ asked => asked
  | @ignore _ _ note free _ _ =>
    rw [Ghost.Free] at free
    obtain ⟨disciplined, opens⟩ := prudent.hears note
    exact prudent.keep rfl rfl disciplined (fun tca member => (opens tca member).1) rfl rfl id
      (fun _ asked => by simp [free] at asked) fun _ asked => by simp [free] at asked
  | @found _ _ r chainNo prio tcr free _ live _ _ _ =>
    obtain ⟨disciplined, opens⟩ := prudent.hears ⟨chainNo, prio, some tcr⟩
    refine prudent.write (rules_setRule ..) rfl disciplined (fun _ => ⟨rfl, rfl⟩)
      (fun other member => .inl (opens other member).1) (fun _ member => .inl member)
      (fun _ member => member) (fun _ _ _ _ _ => rfl) (fun other member same wanted => ?_)
      (fun p apart asked => absurd (by simpa using asked) apart.symm) (fun _ asked => by cases asked)
      fun zero => ?_
    · refine ⟨fun _ => Option.some_ne_none tcr, ?_⟩
      exact same ▸ (prudent.idle other (opens other member).1 (same ▸ wanted)).2
    · obtain ⟨none, idle⟩ := prudent.pinned zero
      refine ⟨List.eq_nil_iff_forall_not_mem.mpr fun other member => ?_, idle⟩
      have before := (opens other member).1
      rw [none] at before
      cases before
  | @vanish g _ r chainNo prio tcr free search live =>
    obtain ⟨disciplined, opens⟩ := prudent.hears ⟨chainNo, prio, none⟩
    obtain ⟨chain, position⟩ := objRuleFind_some search
    refine prudent.write (rules_setRule ..) rfl disciplined (fun _ => ⟨rfl, rfl⟩)
      (fun other member => .inl (opens other member).1) (fun _ member => .inl member)
      (fun _ member => member) (fun _ _ _ _ _ => rfl) (fun other member same wanted => ?_)
      (fun p apart asked => ?_) (fun _ asked => ?_) fun zero => ?_
    · have before := (opens other member).1
      obtain ⟨-, chain', position'⟩ := prudent.openPlace other before
      refine absurd (prudent.gone _ rfl rfl other before ?_ ?_) (same ▸ wanted)
      · rw [chain', same, chain]
      · rw [position', same, position]
    · rw [Ghost.next_task] at asked
      split at asked
      · cases asked
      · exact absurd (by simpa using asked) apart.symm
    · rw [Ghost.next_task] at asked
      split at asked <;> cases asked
    · obtain ⟨none, idle⟩ := prudent.pinned zero
      refine ⟨List.eq_nil_iff_forall_not_mem.mpr fun other member => ?_, idle⟩
      have before := (opens other member).1
      rw [none] at before
      cases before
  | @discover _ _ w₁ w' chainNo prio tcr _ _ inPos inLaf =>
    obtain ⟨disciplined, opens⟩ := prudent.hears ⟨chainNo, prio, some tcr⟩
    obtain ⟨_, pos, laf, -, -, -, -, inserted, rfl⟩ := objRuleNew_alloc inPos inLaf
    refine prudent.alloc bound rfl rfl disciplined (fun other member => (opens other member).1) rfl
      (fun p member => ?_) rfl (fun p asked => ?_) fun _ asked => by cases asked
    · cases laf with
      | none => exact .inr member
      | some laf =>
        have same := w.balancing.insertColor_toList w.rules.next laf
        simp only [Option.map_some, Option.getD_some, World.hears, same] at member
        exact (SearchTree.mem_link inserted).mp member
    · simpa using asked.symm
  | @adopt _ _ r tcr free search live present unwanted _ =>
    have inside := (SearchTree.find_some search).1
    refine prudent.touch (w.rules_adopted r tcr) rfl rfl rfl (fun p member => ?_) rfl
      (fun _ => ⟨rfl, rfl⟩) (fun other member same installs => ?_)
      (fun other member same _ => ?_)
      (fun p apart asked => absurd (by simpa using asked) apart.symm) fun _ asked => by cases asked
    · have tree : (w.adopted r tcr).lafTree.toList = w.lafTree.toList.erase r :=
        w.balancing.erase_toList r w.lafTree
      rw [tree] at member
      exact List.mem_of_mem_erase member
    · have wanted := prudent.wants other member installs
      rw [same, unwanted] at wanted
      exact absurd wanted.symm installs
    · exact absurd (same ▸ inside) (prudent.found other member)
  | @place _ _ placed w' chainNo prio tcr free _ place inserted =>
    obtain ⟨⟨chainTree, rfl⟩, -⟩ := returns_iff.mp (schedBasicPlace_returns tcr w) _ place
    obtain ⟨-, linked, -, rfl⟩ := objRulePosInsert_alloc (w := { w with chainTree }) inserted
    refine prudent.alloc bound rfl rfl prudent.disciplined (fun _ member => member) rfl
      (fun _ member => .inr member) rfl (fun p asked => ?_) fun _ asked => by cases asked
    simpa using asked.symm
  | decline free _ _ _ =>
    rw [Ghost.Free] at free
    exact prudent.keep rfl rfl prudent.disciplined (fun _ member => member) rfl rfl id
      (fun _ asked => by simp [free] at asked) fun _ asked => by simp [free] at asked
  | begin _ _ => exact absurd orderly.alone.opened (by simp)
  | aim _ _ _ => exact absurd orderly.alone.installing (by simp)
  | reaim _ _ _ => exact absurd orderly.alone.installing (by simp)
  | demand _ _ _ => exact absurd orderly.alone.installing (by simp)
  | plant _ _ => exact absurd orderly.alone.installing (by simp)
  | finish _ _ => exact absurd orderly.alone.installing (by simp)
  | shut _ _ =>
    exact prudent.keep rfl rfl prudent.disciplined (fun _ member => member) rfl rfl id
      (fun _ asked => asked) fun _ asked => asked

/-- Install requests stay in order. -/
theorem keeps_prudent : Keeps fun g w => Orderly g w ∧ Prudent g w where
  sound kept := kept.1.sound
  kept kept effect := ⟨keeps_orderly.kept kept.1 effect, effect.prudent kept.1 kept.2⟩

/-- What the functions under way may go on with. -/
theorem Prudent.next (prudent : Prudent g w) {task : Option Task}
    (update : ∀ r, task = some (.update r) → (w.rules.cell r).wantTcr ≠ none →
      (w.rules.cell r).haveTcr ≠ none)
    (report : ∀ note, task = some (.report note) → note.filter = none → ∀ tca ∈ w.opens,
      tca.chainNo = note.chainNo → tca.prio = note.prio →
      (w.rules.cell tca.data).wantTcr = none) : Prudent (g.next task) w :=
  { prudent with
    idle := fun tca member wanted =>
      ⟨fun asked => update _ asked wanted, (prudent.idle tca member wanted).2⟩
    gone := report }

/-- The blank world is prudent. -/
theorem World.Blank.prudent (blank : w.Blank) (silent : w.kernel.echoes = false) :
    Prudent {} w := by
  obtain ⟨conn, queue⟩ := blank.queue
  have waiting : w.waiting = [] := by rw [World.waiting, queue]; rfl
  have opens : w.opens = [] := by rw [World.opens, blank.log]; rfl
  refine ⟨silent, fun before tca filter want after split => ?_, ?_, ?_, ?_, ?_, ?_,
    fun _ asked => (by cases asked), fun _ => ⟨opens, waiting⟩⟩
  · rw [blank.log] at split
    exact absurd split (by simp)
  all_goals simp [waiting, opens]

end Preservation

section Pins

variable {g g' : Ghost} {w w' : World}

/-- While pins are removed no rule of the positional tree is wanted and absent, and the functions
under way have no report and no request to go on with. -/
structure Filled (g : Ghost) (w : World) : Prop where
  silent : w.kernel.echoes = false
  tree : ∀ r ∈ w.posTree.toList, (w.rules.cell r).wantTcr ≠ none →
    (w.rules.cell r).haveTcr ≠ none
  update : ∀ r, g.task = some (.update r) → (w.rules.cell r).wantTcr ≠ none →
    (w.rules.cell r).haveTcr ≠ none
  report : ∀ note, g.task ≠ some (.report note)
  request : ∀ tcr, g.task ≠ some (.request tcr)

/-- What a change of one rule keeps that does not take from it what it has. -/
theorem Filled.modify (filled : Filled g w) {r : RuleId} {f : ObjRule → ObjRule}
    (rules : w'.rules = w.rules.modify r f) (echoes : w'.kernel.echoes = w.kernel.echoes)
    (tree : ∀ p ∈ w'.posTree.toList, p ∈ w.posTree.toList)
    (have' : (f (w.rules.cell r)).wantTcr = none ∨
      (f (w.rules.cell r)).wantTcr = (w.rules.cell r).wantTcr ∧
        (f (w.rules.cell r)).haveTcr = (w.rules.cell r).haveTcr)
    (task : ∀ task, g'.task = some task → g.task = some task ∨
      task = .update r ∧ (f (w.rules.cell r)).wantTcr = none) : Filled g' w' := by
  have kept : ∀ p, ((w.rules.cell p).wantTcr ≠ none → (w.rules.cell p).haveTcr ≠ none) →
      (w'.rules.cell p).wantTcr ≠ none → (w'.rules.cell p).haveTcr ≠ none := by
    intro p before wanted
    rw [rules, Heap.cell_modify] at wanted ⊢
    by_cases here : p = r
    · subst here
      rw [if_pos rfl] at wanted ⊢
      obtain ⟨want, have'⟩ := have'.resolve_left wanted
      rw [have']
      exact before (want ▸ wanted)
    · rw [if_neg here] at wanted ⊢
      exact before wanted
  refine ⟨echoes.trans filled.silent, fun p inside => kept p (filled.tree p (tree p inside)),
    fun p asked wanted => ?_, fun note asked => ?_, fun tcr asked => ?_⟩
  · rcases task _ asked with before | ⟨same, unwanted⟩
    · exact kept p (filled.update p before) wanted
    · cases same
      rw [rules, Heap.cell_modify_same] at wanted
      exact absurd unwanted wanted
  · exact ((task _ asked).elim (filled.report note) fun new => nomatch new.1)
  · exact ((task _ asked).elim (filled.request tcr) fun new => nomatch new.1)

/-- What is kept where no rule changes. -/
theorem Filled.keep (filled : Filled g w) (rules : w'.rules = w.rules)
    (echoes : w'.kernel.echoes = w.kernel.echoes) (tree : w'.posTree = w.posTree)
    (task : ∀ task, g'.task = some task → g.task = some task) : Filled g' w' where
  silent := echoes.trans filled.silent
  tree := by
    rw [rules, tree]
    exact filled.tree
  update p asked := by
    rw [rules]
    exact filled.update p (task _ asked)
  report note asked := filled.report note (task _ asked)
  request tcr asked := filled.request tcr (task _ asked)

/-- Every effect keeps it while no route is under way. -/
theorem Effect.filled (orderly : Orderly g w) (filled : Filled g w)
    (effect : Effect g w g' w') : Filled g' w' := by
  cases effect with
  | ref _ =>
    exact filled.modify (rules_setRule ..) rfl (fun _ inside => inside) (.inr ⟨rfl, rfl⟩)
      fun _ asked => .inl asked
  | unref _ _ =>
    exact filled.modify (rules_setRule ..) rfl (fun _ inside => inside) (.inr ⟨rfl, rfl⟩)
      fun _ asked => .inl asked
  | unwant _ _ _ _ _ _ _ =>
    exact filled.modify (rules_setRule ..) rfl (fun _ inside => inside) (.inl rfl)
      fun _ asked => .inr ⟨(Option.some.inj asked).symm, rfl⟩
  | @reap _ _ _ r _ _ _ reaped =>
    obtain ⟨rfl, -⟩ := objRuleReap_ok reaped
    refine filled.modify (r := r) (f := ObjRule.reaped) (by simp [World.reaped, World.setRule])
      (by simp [World.reaped, World.setRule]) (fun p inside => ?_) (.inl rfl)
      fun _ asked => .inl asked
    simp only [World.reaped] at inside
    split at inside
    · rw [w.balancing.erase_toList] at inside
      exact List.mem_of_mem_erase inside
    · exact inside
  | skip free _ =>
    rw [Ghost.Free] at free
    exact filled.keep rfl rfl rfl fun _ asked => by simp [free] at asked
  | settle free _ _ _ _ =>
    rw [Ghost.Free] at free
    exact filled.modify (rules_setRule ..) rfl (fun _ inside => inside) (.inr ⟨rfl, rfl⟩)
      fun _ asked => by simp [free] at asked
  | @confirm _ _ r t _ _ _ _ _ _ target =>
    rw [orderly.alone.target r] at target
    cases target
  | schedule free _ _ _ _ _ _ =>
    rw [Ghost.Free] at free
    exact filled.modify (w.rules_scheduled _) rfl (fun _ inside => inside) (.inr ⟨rfl, rfl⟩)
      fun _ asked => by simp [free] at asked
  | @execute _ _ tca queue _ _ _ =>
    have echoes : (w.executed tca queue).kernel.echoes = w.kernel.echoes := by
      simp only [World.executed, World.answer, Kernel.request]
      split <;> split <;> rfl
    exact filled.modify (w.rules_executed tca queue) echoes (fun _ inside => inside)
      (.inr ⟨rfl, rfl⟩) fun _ asked => by simp [World.echo, filled.silent] at asked
  | complete _ _ => exact filled.keep rfl rfl rfl fun _ asked => asked
  | leave _ _ => exact filled.keep rfl rfl rfl fun _ asked => asked
  | ignore _ _ _ => exact absurd rfl (filled.report _)
  | found _ _ _ _ _ _ => exact absurd rfl (filled.report _)
  | vanish _ _ _ => exact absurd rfl (filled.report _)
  | discover _ _ _ _ => exact absurd rfl (filled.report _)
  | adopt _ _ _ _ _ _ => exact absurd rfl (filled.request _)
  | place _ _ _ _ => exact absurd rfl (filled.request _)
  | decline _ _ _ _ => exact absurd rfl (filled.request _)
  | begin _ _ => exact absurd orderly.alone.opened (by simp)
  | aim _ _ _ => exact absurd orderly.alone.installing (by simp)
  | reaim _ _ _ => exact absurd orderly.alone.installing (by simp)
  | demand _ _ _ => exact absurd orderly.alone.installing (by simp)
  | plant _ _ => exact absurd orderly.alone.installing (by simp)
  | finish _ _ => exact absurd orderly.alone.installing (by simp)
  | shut _ _ => exact filled.keep rfl rfl rfl fun _ asked => asked

/-- What the passes of `obj_rule_remove_pin` keep. -/
theorem unpins_filled (s : Owners) :
    Unpins (fun g w => (Orderly g w ∧ Prudent g w) ∧ Filled g w) s.ghost where
  sound kept := kept.1.1.sound
  kept kept effect := ⟨keeps_prudent.kept kept.1 effect, effect.filled kept.1.1 kept.2⟩
  visit {w} r inside kept := by
    obtain ⟨⟨orderly, prudent⟩, filled⟩ := kept
    refine ⟨⟨(unpins_orderly s).visit r inside orderly, prudent.next (fun p asked => ?_)
      fun _ asked => by cases asked⟩, ⟨filled.silent, filled.tree, fun p asked => ?_,
      fun _ asked => (by cases asked), fun _ asked => by cases asked⟩⟩
    · cases asked
      exact filled.tree r inside
    · cases asked
      exact filled.tree r inside
  raise {w} pin nonzero kept := by
    obtain ⟨⟨orderly, prudent⟩, filled⟩ := kept
    exact ⟨⟨(unpins_orderly s).raise pin nonzero orderly,
      { prudent with pinned := fun zero => absurd zero nonzero }⟩, { filled with }⟩

end Pins

/-- The first move of a careful event keeps install requests in order. -/
theorem carries_prudent : Carries RuleEvent.Careful fun g w => Orderly g w ∧ Prudent g w where
  toKeeps := keeps_prudent
  staticWant {s} _ _ _ w kept _ search inserted := by
    obtain ⟨orderly, prudent⟩ := kept
    refine ⟨carries_orderly.staticWant orderly trivial search inserted, ?_⟩
    obtain ⟨-, linked, -, rfl⟩ := objRulePosInsert_alloc inserted
    exact prudent.alloc (fun tca member => (orderly.sound.counts.alive _
      (orderly.sound.counts.live_waiting member)).2) rfl rfl prudent.disciplined
      (fun _ member => member) rfl (fun _ member => .inr member) rfl
      (fun p asked => (by simpa using asked.symm)) fun _ asked => nomatch asked
  request kept _ :=
    ⟨carries_orderly.request kept.1 trivial, kept.2.next (fun _ asked => nomatch asked)
      fun _ asked => nomatch asked⟩
  uninstall {s} r kept careful live := by
    obtain ⟨orderly, prudent⟩ := kept
    refine ⟨carries_orderly.uninstall orderly trivial live, ?_⟩
    exact prudent.touch (rules_setRule ..) rfl rfl rfl (fun _ member => member) rfl
      (fun _ => ⟨rfl, rfl⟩) (fun tca member same installs => absurd installs (careful tca member same))
      (fun _ _ _ wanted => absurd rfl wanted)
      (fun p apart asked => absurd (by simpa using asked) apart.symm) fun _ asked => nomatch asked
  removePin {s} bound kept careful zero := by
    have filled : Filled s.ghost s.world := ⟨kept.2.silent, careful zero,
      fun _ asked => (by cases asked), fun _ asked => (by cases asked),
      fun _ asked => by cases asked⟩
    exact (objRuleRemovePin_keeps (unpins_filled s) bound s.ready bound zero ⟨kept, filled⟩).mono
      fun w' after => ⟨after.1.1, after.2⟩
  message {s} nlmsgType chainNo prio tcr kept careful := by
    refine ⟨carries_orderly.message kept.1 trivial, kept.2.next (fun _ asked => nomatch asked)
      fun note asked removal => ?_⟩
    cases asked
    split at removal
    · next gone => exact careful gone
    · cases removal
  completed {s} tca queue kept _ completed :=
    ⟨carries_orderly.completed kept.1 trivial completed,
      @Prudent.keep _ _ s.world { s.world with queue } kept.2 rfl rfl kept.2.disciplined
        (fun _ member => member) (waiting_handleQueueCompleted completed) rfl id
        (fun _ asked => asked) fun _ asked => asked⟩
  notified {s} note notes kept careful more := by
    refine ⟨carries_orderly.notified kept.1 trivial more, ?_⟩
    have same : Prudent s.ghost { s.world with kernel := { s.world.kernel with notes } } :=
      kept.2.keep rfl rfl kept.2.disciplined (fun _ member => member) rfl rfl id
        (fun _ asked => asked) fun _ asked => asked
    refine same.next (fun _ asked => nomatch asked) fun other asked removal => ?_
    cases asked
    exact careful note (by simp [more]) removal
  foreign {s} note kept _ :=
    ⟨carries_orderly.foreign kept.1 trivial,
      @Prudent.keep _ _ s.world { s.world with kernel := s.world.kernel.change note } kept.2 rfl
        rfl kept.2.disciplined (fun _ member => member) rfl rfl id (fun _ asked => asked)
        fun _ asked => asked⟩
  echoing {s} echoes kept careful := by
    cases careful
    exact ⟨carries_orderly.echoing kept.1 trivial,
      @Prudent.keep _ _ s.world { s.world with kernel := { s.world.kernel with echoes := false } }
        kept.2 rfl kept.2.silent.symm kept.2.disciplined (fun _ member => member) rfl rfl id
        (fun _ asked => asked) fun _ asked => asked⟩

/-- In every run of careful events against a kernel that reports later, every install that is sent
is what its rule wants then, no other install of its rule is open, and every install that waits
is what its rule wants. -/
theorem install_discipline {w : World} (blank : w.Blank) (silent : w.kernel.echoes = false)
    {s : Owners} (reached : Owners.Reached RuleEvent.Careful w s) :
    Disciplined s.world.kernel.rejects s.world.log ∧
      ∀ tca ∈ s.world.waiting, tca.Installs →
        (s.world.rules.cell tca.data).wantTcr = tca.tcr := by
  have between := reached.between carries_prudent blank.pinChanges
    ⟨blank.orderly, blank.prudent silent⟩
  exact ⟨between.kept.2.disciplined, between.kept.2.wants⟩

/-- A rule is requested after the pins were removed, its install is sent and reported. -/
theorem install_discipline_request :
    ∃ s, Owners.playWhile (fun s e => e.Careful s) 9
        [.removePin, .request (forwardRule 7), .completed, .notified] { world := blankWorld } = .ok s ∧
      s.world.log.length = 3 ∧ Disciplined s.world.kernel.rejects s.world.log := by
  refine ⟨_, rfl, rfl, ?_⟩
  exact (install_discipline blankWorld_blank rfl (Owners.playWhile_reached .start
    (show Owners.playWhile (fun s e => e.Careful s) 9
      [.removePin, .request (forwardRule 7), .completed, .notified] _ = .ok _ from rfl))).1

/-- The install of the rule that is requested first. -/
def firstInstall : TcAction := ⟨5, 1, some (forwardRule 7), 0⟩

/-- The install of the rule that is requested next. -/
def secondInstall : TcAction := ⟨6, 1, some (forwardRule 8), 1⟩

/-- A rule that is wanted before the pins are removed is sent twice without a report, and a rule
that is uninstalled while its install waits is sent although nobody wants it. -/
theorem install_discipline_fails :
    (∃ s, Owners.play 9 [.request (forwardRule 7), .removePin, .completed]
        { world := blankWorld } = .ok s ∧
      ¬ Disciplined s.world.kernel.rejects s.world.log) ∧
    ∃ s, Owners.play 9 [.removePin, .request (forwardRule 7), .request (forwardRule 8),
        .uninstall 1, .completed] { world := blankWorld } = .ok s ∧
      ¬ Disciplined s.world.kernel.rejects s.world.log := by
  constructor
  · refine ⟨_, rfl, fun disciplined => ?_⟩
    obtain ⟨-, fresh⟩ := disciplined [.queued firstInstall none,
      .sent firstInstall none (some (forwardRule 7)),
      .queued firstInstall (some (forwardRule 7))]
      firstInstall (some (forwardRule 7)) (some (forwardRule 7)) [] rfl (by decide)
    exact fresh firstInstall (by decide) rfl
  · refine ⟨_, rfl, fun disciplined => ?_⟩
    obtain ⟨wanted, -⟩ := disciplined [.queued firstInstall none,
      .sent firstInstall none (some (forwardRule 7)), .queued secondInstall none]
      secondInstall none none [] rfl (by decide)
    cases wanted

end FlowerRoute
