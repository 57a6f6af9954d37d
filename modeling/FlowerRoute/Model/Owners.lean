import FlowerRoute.Model.Daemon
import Mathlib.Data.Multiset.AddSub
import Mathlib.Logic.Relation

/-!
# Runs of the rule objects

The calls that the rest of the daemon makes on rule objects, one at a time and in any order: the
owners request, want and release rules, the monitor reports filters, the connection completes
requests. The kernel answers inside the call that sends a request or through its reports.
-/

namespace FlowerRoute

open Outcome

/-- The world, with the references to rules that their owners hold. -/
structure Owners where
  world : World
  loans : Multiset RuleId := 0

/-- A call on the rule objects, or a step of what surrounds them. -/
inductive RuleEvent
  /-- `obj_rule_static_want`. -/
  | staticWant (chainNo : UInt32) (prio : UInt16) (tcr : TcRule)
  /-- `obj_rule_request`; the caller keeps the reference. -/
  | request (tcr : TcRule)
  /-- `obj_rule_uninstall`. -/
  | uninstall (r : RuleId)
  /-- `obj_rule_ref`. -/
  | ref (r : RuleId)
  /-- `obj_rule_unref`. -/
  | unref (r : RuleId)
  /-- `obj_rule_remove_pin`. -/
  | removePin
  /-- `obj_rule_netlink_found` for any filter message. -/
  | message (nlmsgType : UInt16) (chainNo : UInt32) (prio : UInt16) (tcr : TcRule)
  /-- The connection reports the completion of the request that is outstanding. -/
  | completed
  /-- The oldest report of the kernel is processed. -/
  | notified
  /-- Another program changes the filter at a position, which the kernel reports. -/
  | foreign (note : Note)
  /-- From here on the kernel reports inside the call that sends a request, or later. -/
  | echoing (echoes : Bool)
  deriving DecidableEq, Repr

/-- `obj_rule_netlink_found`. -/
def objRuleNetlink (c : Calls) (nlmsgType : UInt16) (chainNo : UInt32) (prio : UInt16)
    (tcr : TcRule) (w : World) : Except Fault World :=
  if nlmsgType = rtmDeltfilter then objRuleNetlinkGone c chainNo prio tcr w
  else objRuleNetlinkFound c chainNo prio tcr w

/-- Another program changes the filter at a position. -/
def Kernel.change (k : Kernel) (note : Note) : Kernel :=
  { k with
    filters := fun chainNo prio =>
      if chainNo = note.chainNo ∧ prio = note.prio then note.filter else k.filters chainNo prio
    notes := k.notes ++ [note] }

/-- What an event does, at a bound on the depth of calls and on the rounds of a pass. -/
def RuleEvent.run (bound : Nat) (s : Owners) : RuleEvent → Except Fault Owners
  | .staticWant chainNo prio tcr => do
    return { s with world := ← objRuleStaticWant (calls bound) chainNo prio tcr s.world }
  | .request tcr => do
    match ← objRuleRequest (calls bound) tcr s.world with
    | (none, world) => return { s with world }
    | (some r, world) => return { world, loans := r ::ₘ s.loans }
  | .uninstall r => do return { s with world := ← objRuleUninstall (calls bound) r s.world }
  | .ref r => do return { world := ← objRuleRef r s.world, loans := r ::ₘ s.loans }
  | .unref r => do
    return { world := ← objRuleUnref (calls bound) r s.world, loans := s.loans.erase r }
  | .removePin => do return { s with world := ← objRuleRemovePin (calls bound) bound s.world }
  | .message nlmsgType chainNo prio tcr => do
    return { s with world := ← objRuleNetlink (calls bound) nlmsgType chainNo prio tcr s.world }
  | .completed => do
    return { s with world := ← queueIsComplete (calls bound) s.world.queue.conn s.world }
  | .notified =>
    match s.world.kernel.notes with
    | [] => .ok s
    | note :: notes => do
      return { s with world := ← objRuleNotified (calls bound) note { s.world with
        kernel := { s.world.kernel with notes } } }
  | .foreign note => .ok { s with world := { s.world with kernel := s.world.kernel.change note } }
  | .echoing echoes =>
    .ok { s with world := { s.world with kernel := { s.world.kernel with echoes } } }

/-- Owners release only references that they hold, and uninstall only rules that have not been
reaped. -/
def RuleEvent.Allowed (s : Owners) : RuleEvent → Prop
  | .uninstall r => (s.world.rules.cell r).obj.kind = .rule
  | .unref r => r ∈ s.loans
  | _ => True

instance (s : Owners) (e : RuleEvent) : Decidable (e.Allowed s) :=
  match e with
  | .uninstall r => inferInstanceAs (Decidable ((s.world.rules.cell r).obj.kind = .rule))
  | .unref r => inferInstanceAs (Decidable (r ∈ s.loans))
  | .staticWant .. | .request _ | .ref _ | .removePin | .message .. | .completed | .notified
  | .foreign _ | .echoing _ => inferInstanceAs (Decidable True)

/-- No object has been made yet, no pin removed, and the queue is as `queue_init` leaves it. -/
structure World.Blank (w : World) : Prop where
  pinChanges : w.pinChanges = 0
  targets : w.targets = {}
  routes : w.routes = {}
  rules : w.rules = {}
  ruleCnt : w.ruleCnt = 0
  posTree : w.posTree = .leaf
  lafTree : w.lafTree = .leaf
  chainTree : w.chainTree = .leaf
  queue : ∃ conn, w.queue = { conn := some conn }
  notes : w.kernel.notes = []
  log : w.log = []

/-- The states between the events of a run from a world, each of whose events meets a condition. -/
inductive Owners.Reached (good : Owners → RuleEvent → Prop) (w : World) : Owners → Prop
  | start : Reached good w { world := w }
  | step {s s' : Owners} {e : RuleEvent} {bound : Nat} : Reached good w s → e.Allowed s →
      good s e → e.run bound s = .ok s' → Reached good w s'

/-- Events one after the other, as far as each of them is allowed. -/
def Owners.play (bound : Nat) (events : List RuleEvent) (s : Owners) : Except Fault Owners :=
  events.foldlM (fun s e => if e.Allowed s then e.run bound s else .error .assertion) s

/-- Events that were played lead to states of a run. -/
theorem Owners.play_reached {w : World} {bound : Nat} {events : List RuleEvent} {s s' : Owners}
    (reached : Reached (fun _ _ => True) w s) (played : s.play bound events = .ok s') :
    Reached (fun _ _ => True) w s' := by
  induction events generalizing s with
  | nil =>
    cases played
    exact reached
  | cons e events ih =>
    rw [play, List.foldlM_cons] at played
    obtain ⟨next, ran, played⟩ := bind_returned played
    split at ran
    · next allowed => exact ih (reached.step allowed trivial ran) played
    · cases ran

/-- Events one after the other, as far as each of them is allowed and meets a condition. -/
def Owners.playWhile (good : Owners → RuleEvent → Prop) [∀ s e, Decidable (good s e)] (bound : Nat)
    (events : List RuleEvent) (s : Owners) : Except Fault Owners :=
  events.foldlM (fun s e =>
    if e.Allowed s ∧ good s e then e.run bound s else .error .assertion) s

/-- Events that were played under a condition lead to states of a run under it. -/
theorem Owners.playWhile_reached {good : Owners → RuleEvent → Prop}
    [∀ s e, Decidable (good s e)] {w : World} {bound : Nat} {events : List RuleEvent}
    {s s' : Owners} (reached : Reached good w s) (played : s.playWhile good bound events = .ok s') :
    Reached good w s' := by
  induction events generalizing s with
  | nil =>
    cases played
    exact reached
  | cons e events ih =>
    rw [playWhile, List.foldlM_cons] at played
    obtain ⟨next, ran, played⟩ := bind_returned played
    split at ran
    · next met => exact ih (reached.step met.1 met.2 ran) played
    · cases ran

/-- One event that meets a condition. -/
def Owners.Step (good : Owners → RuleEvent → Prop) (s s' : Owners) : Prop :=
  ∃ e bound, e.Allowed s ∧ good s e ∧ e.run bound s = .ok s'

/-- Events that were played under a condition are steps that meet it. -/
theorem Owners.playWhile_steps {good : Owners → RuleEvent → Prop} [∀ s e, Decidable (good s e)]
    {bound : Nat} {events : List RuleEvent} {s s' : Owners}
    (played : s.playWhile good bound events = .ok s') :
    Relation.ReflTransGen (Step good) s s' := by
  induction events generalizing s with
  | nil =>
    cases played
    exact .refl
  | cons e events ih =>
    rw [playWhile, List.foldlM_cons] at played
    obtain ⟨next, ran, played⟩ := bind_returned played
    split at ran
    · next met => exact .head ⟨e, bound, met.1, met.2, ran⟩ (ih played)
    · cases ran

/-- Steps lead from one state of a run to another. -/
theorem Owners.Reached.steps {good : Owners → RuleEvent → Prop} {w : World} {s s' : Owners}
    (reached : Reached good w s) (steps : Relation.ReflTransGen (Step good) s s') :
    Reached good w s' := by
  induction steps with
  | refl => exact reached
  | tail _ step ih =>
    obtain ⟨e, bound, allowed, met, ran⟩ := step
    exact ih.step allowed met ran

/-- A run under a condition is a run. -/
theorem Owners.Reached.mono {good good' : Owners → RuleEvent → Prop} {w : World} {s : Owners}
    (reached : Reached good w s) (weaker : ∀ s e, good s e → good' s e) : Reached good' w s := by
  induction reached with
  | start => exact .start
  | step _ allowed met ran ih => exact ih.step allowed (weaker _ _ met) ran

/-- A call on the rule objects, or the report of a chain. -/
inductive ChainEvent
  | rule (e : RuleEvent)
  /-- `filter_got_chain`. -/
  | gotChain (chainNo : UInt32)
  deriving DecidableEq, Repr

/-- What an event does. -/
def ChainEvent.run (bound : Nat) (s : Owners) : ChainEvent → Except Fault Owners
  | .rule e => e.run bound s
  | .gotChain chainNo => do return { s with world := ← filterGotChain chainNo s.world }

/-- The kernel may report any chain. -/
def ChainEvent.Allowed (s : Owners) : ChainEvent → Prop
  | .rule e => e.Allowed s
  | .gotChain _ => True

instance (s : Owners) (e : ChainEvent) : Decidable (e.Allowed s) :=
  match e with
  | .rule e => inferInstanceAs (Decidable (e.Allowed s))
  | .gotChain _ => inferInstanceAs (Decidable True)

/-- The states between the events of a run with chains, each of whose events meets a condition. -/
inductive Owners.ChainReached (good : Owners → ChainEvent → Prop) (w : World) : Owners → Prop
  | start : ChainReached good w { world := w }
  | step {s s' : Owners} {e : ChainEvent} {bound : Nat} : ChainReached good w s → e.Allowed s →
      good s e → e.run bound s = .ok s' → ChainReached good w s'

/-- Events with chains one after the other, as far as each of them is allowed. -/
def Owners.chainPlay (bound : Nat) (events : List ChainEvent) (s : Owners) :
    Except Fault Owners :=
  events.foldlM (fun s e => if e.Allowed s then e.run bound s else .error .assertion) s

/-- Events that were played lead to states of a run, where every one of them meets the
condition. -/
theorem Owners.chainPlay_reached {good : Owners → ChainEvent → Prop} {w : World} {bound : Nat}
    {events : List ChainEvent} {s s' : Owners} (reached : ChainReached good w s)
    (meets : ∀ s, ∀ e ∈ events, good s e) (played : s.chainPlay bound events = .ok s') :
    ChainReached good w s' := by
  induction events generalizing s with
  | nil =>
    cases played
    exact reached
  | cons e events ih =>
    rw [chainPlay, List.foldlM_cons] at played
    obtain ⟨next, ran, played⟩ := bind_returned played
    split at ran
    · next allowed =>
      exact ih (reached.step allowed (meets s e List.mem_cons_self) ran)
        (fun s e inside => meets s e (List.mem_cons_of_mem _ inside)) played
    · cases ran

/-- A call on the rule objects, or a netlink message as the monitor receives it. -/
inductive MonitorEvent
  | rule (e : RuleEvent)
  /-- `decode_nlmsg_cb`. -/
  | received (nlh : Nlmsg)

/-- What an event does. -/
def MonitorEvent.run (bound : Nat) (s : Owners) : MonitorEvent → Except Fault Owners
  | .rule e => e.run bound s
  | .received nlh => do return { s with world := ← decodeNlmsgCb (calls bound) nlh s.world }

/-- Any message may be received. -/
def MonitorEvent.Allowed (s : Owners) : MonitorEvent → Prop
  | .rule e => e.Allowed s
  | .received _ => True

instance (s : Owners) (e : MonitorEvent) : Decidable (e.Allowed s) :=
  match e with
  | .rule e => inferInstanceAs (Decidable (e.Allowed s))
  | .received _ => inferInstanceAs (Decidable True)

/-- Events with messages one after the other, as far as each of them is allowed. -/
def Owners.monitorPlay (bound : Nat) (events : List MonitorEvent) (s : Owners) :
    Except Fault Owners :=
  events.foldlM (fun s e => if e.Allowed s then e.run bound s else .error .assertion) s

end FlowerRoute
