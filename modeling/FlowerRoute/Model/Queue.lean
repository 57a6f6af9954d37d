import FlowerRoute.Lib.Outcome
import FlowerRoute.Model.Address

/-!
# The request queue

`nl_queue.c`: the queue of scheduled items with its flags. The functions that run callbacks
are split at the callback: `queueProcess` ends where `execute` is called and
`handleQueueCompleted` where `completed` is called. Callers run the callback and go on.
-/

namespace FlowerRoute

open Outcome

/-- A connection, by identity. -/
abbrev ConnId := Nat

/-- `enum queue_item_state`. -/
inductive QueueItemState
  | new
  | sent
  | done
  deriving DecidableEq, Repr

/-- `struct queue_item`; its callbacks are what the data stands for. -/
structure QueueItem (ι : Type) where
  data : ι
  state : QueueItemState := .new
  deriving DecidableEq, Repr

/-- `struct queue`: the items from `head` to `tail`. -/
structure Queue (ι : Type) where
  items : List (QueueItem ι) := []
  isBusy : Bool := false
  hasSentRequest : Bool := false
  conn : Option ConnId := none
  deriving DecidableEq, Repr

namespace Queue

variable {ι : Type}

/-- `queue_init`. -/
def queueInit (q : Queue ι) (c : ConnId) : Except Fault (Queue ι) := do
  require Fault.assertion (q.conn = none)
  return { conn := some c }

/-- `queue_get_conn`. -/
def queueGetConn (q : Queue ι) : Except Fault ConnId :=
  match q.conn with
  | some c => .ok c
  | none => .error .assertion

/-- `queue_pop`. -/
def queuePop (q : Queue ι) : Except Fault (QueueItem ι × Queue ι) :=
  match q.items with
  | [] => .error .assertion
  | qi :: rest => .ok (qi, { q with items := rest })

/-- `queue_process` up to the call of `execute`, with the data to call it on. -/
def queueProcess (q : Queue ι) : Except Fault (ι × Queue ι) := do
  require Fault.assertion (q.isBusy = false)
  match q.items with
  | [] => .error .nullPointer
  | qi :: rest =>
    require Fault.assertion (qi.state = .new)
    return (qi.data, { q with
      items := { qi with state := .sent } :: rest, isBusy := true, hasSentRequest := false })

/-- `handle_queue_completed` up to the call of `completed`, with the data to call it on. -/
def handleQueueCompleted (q : Queue ι) (c : Option ConnId) : Except Fault (ι × Queue ι) := do
  require Fault.assertion (q.conn = c)
  require Fault.assertion (q.isBusy = true)
  let (qi, q) ← q.queuePop
  require Fault.assertion (qi.state = .sent)
  return (qi.data, { q with isBusy := false })

/-- `queue_has_sent_request`. -/
def queueHasSentRequest (q : Queue ι) (c : Option ConnId) : Except Fault (Queue ι) := do
  require Fault.assertion (q.conn = c)
  return { q with hasSentRequest := true }

/-- The part of `queue_schedule` before the queue is run. -/
def enqueue (q : Queue ι) (data : ι) : Queue ι :=
  { q with items := q.items ++ [{ data }] }

/-- `Q.head != NULL && !Q.is_busy`. -/
def canProcess (q : Queue ι) : Bool := !q.items.isEmpty && !q.isBusy

/-- Nothing is being executed and no item has been: all items wait. -/
def Idle (q : Queue ι) : Prop := q.isBusy = false ∧ ∀ qi ∈ q.items, qi.state = .new

/-- The head is being executed or waits for its completion; the others wait. -/
def Running (q : Queue ι) (data : ι) (waiting : List (QueueItem ι)) : Prop :=
  q.isBusy = true ∧ q.items = ⟨data, .sent⟩ :: waiting ∧ ∀ qi ∈ waiting, qi.state = .new

/-- A queue that was started runs its first item, which was waiting. -/
theorem queueProcess_ok {q started : Queue ι} {data : ι}
    (processed : q.queueProcess = .ok (data, started)) :
    ∃ rest, q.items = ⟨data, .new⟩ :: rest ∧ started = { q with
      items := ⟨data, .sent⟩ :: rest, isBusy := true, hasSentRequest := false } := by
  rw [queueProcess] at processed
  obtain ⟨_, -, processed⟩ := bind_returned processed
  split at processed
  · cases processed
  · next qi rest items =>
    obtain ⟨_, fresh, processed⟩ := bind_returned processed
    obtain ⟨data, state⟩ := qi
    have new : state = .new := of_require fresh
    subst new
    cases processed
    exact ⟨rest, items, rfl⟩

/-- A queue whose request was completed was busy with its first item, which is taken off. -/
theorem handleQueueCompleted_ok {q finished : Queue ι} {c : Option ConnId} {data : ι}
    (completed : q.handleQueueCompleted c = .ok (data, finished)) :
    q.isBusy = true ∧ ∃ rest, q.items = ⟨data, .sent⟩ :: rest ∧
      finished = { q with items := rest, isBusy := false } := by
  rw [handleQueueCompleted] at completed
  obtain ⟨_, -, completed⟩ := bind_returned completed
  obtain ⟨_, busy, completed⟩ := bind_returned completed
  obtain ⟨⟨qi, popped⟩, pop, completed⟩ := bind_returned completed
  obtain ⟨_, sent, completed⟩ := bind_returned completed
  rw [queuePop] at pop
  split at pop
  · cases pop
  · next rest items =>
    cases pop
    obtain ⟨data, state⟩ := qi
    have was : state = .sent := of_require sent
    subst was
    cases completed
    exact ⟨of_require busy, rest, items, rfl⟩

/-- Starting an idle queue that has an item runs the first item. -/
theorem queueProcess_idle {q : Queue ι} (idle : q.Idle) {qi : QueueItem ι}
    {rest : List (QueueItem ι)} (items : q.items = qi :: rest) :
    ∃ started, q.queueProcess = .ok (qi.data, started) ∧ started.Running qi.data rest ∧
      started.hasSentRequest = false ∧ started.conn = q.conn := by
  have fresh := idle.2 qi (by simp [items])
  have others : ∀ other ∈ rest, other.state = .new := fun other member =>
    idle.2 other (by simp [items, member])
  refine ⟨{ q with
    items := { qi with state := .sent } :: rest, isBusy := true, hasSentRequest := false },
    ?_, ⟨rfl, rfl, others⟩, rfl, rfl⟩
  simp [queueProcess, require, idle.1, items, fresh, bind, Except.bind, pure, Except.pure]

/-- The completion of a running item takes it off and leaves the queue idle. -/
theorem handleQueueCompleted_running {q : Queue ι} {data : ι} {waiting : List (QueueItem ι)}
    (running : q.Running data waiting) :
    ∃ finished, q.handleQueueCompleted q.conn = .ok (data, finished) ∧ finished.Idle ∧
      finished.items = waiting ∧ finished.conn = q.conn := by
  obtain ⟨busy, items, others⟩ := running
  refine ⟨{ q with items := waiting, isBusy := false }, ?_, ⟨rfl, others⟩, rfl, rfl⟩
  simp [handleQueueCompleted, queuePop, require, busy, items, bind, Except.bind, pure,
    Except.pure]

/-- An item added to an idle queue waits. -/
theorem Idle.enqueue {q : Queue ι} (idle : q.Idle) (data : ι) : (q.enqueue data).Idle := by
  refine ⟨idle.1, fun qi member => ?_⟩
  rcases List.mem_append.mp member with old | new
  · exact idle.2 qi old
  · rw [List.mem_singleton] at new
    rw [new]

/-- An item added behind a running one waits. -/
theorem Running.enqueue {q : Queue ι} {data : ι} {waiting : List (QueueItem ι)}
    (running : q.Running data waiting) (more : ι) :
    (q.enqueue more).Running data (waiting ++ [⟨more, .new⟩]) := by
  obtain ⟨busy, items, others⟩ := running
  refine ⟨busy, by simp [Queue.enqueue, items], fun qi member => ?_⟩
  rcases List.mem_append.mp member with old | new
  · exact others qi old
  · rw [List.mem_singleton] at new
    rw [new]

end Queue

end FlowerRoute
