import FlowerRoute.Model.Queue

/-!
# The queue at work

`nl_queue.c` as a machine with an explicit stack. The queue's own functions and the clients'
callbacks nest: a callback may schedule items, which may start another activation of
`queue_process_loop` on top. A client is driven by inputs, so every behaviour of every
callback is an input sequence.
-/

namespace FlowerRoute.Executor

open Outcome

/-- A scheduled item: its number in the order of scheduling, and whether it has a
`completed` callback. -/
structure Client where
  number : Nat
  hasCompleted : Bool
  deriving DecidableEq, Repr

/-- An activation on the stack, with the point it has reached. -/
inductive Frame
  /-- `queue_process_loop` before its loop test. -/
  | processLoop
  /-- `queue_process_loop` after `queue_process` returned. -/
  | processed
  /-- `queue_is_complete` after `handle_queue_completed` returned. -/
  | isComplete
  /-- A client's `execute`, with whether it has sent its request. -/
  | execute (number : Nat) (sent : Bool)
  /-- A client's `completed`. -/
  | completed (number : Nat)
  deriving DecidableEq, Repr

/-- What can be observed of the queue. -/
inductive Event
  | executes (number : Nat)
  | sends (number : Nat)
  | reports (errno : Int)
  | completes (number : Nat) (errno : Int)
  deriving DecidableEq, Repr

/-- The queue, the stack from its top, the requests outstanding on the connection, and the
clients and events so far. -/
structure State where
  queue : Queue Client := {}
  stack : List Frame := []
  outstanding : Nat := 0
  clients : List Client := []
  trace : List Event := []
  deriving DecidableEq, Repr

/-- What drives the machine. -/
inductive Input
  /-- The queue's function on top of the stack goes on. -/
  | advance
  /-- The running callback, or the main program, schedules an item. -/
  | schedule (hasCompleted : Bool)
  /-- The running `execute` sends its request. -/
  | send
  /-- The running callback returns. -/
  | return
  /-- The connection reports a completion to the event loop. -/
  | report (errno : Int)
  deriving DecidableEq, Repr

/-- `handle_queue_completed`, called from the function that goes on at `caller`. -/
def handleCompleted (s : State) (errno : Int) (caller : Frame) (below : List Frame) :
    Except Fault State := do
  let (client, queue) ← s.queue.handleQueueCompleted s.queue.conn
  if client.hasCompleted then
    return { s with
      queue
      stack := .completed client.number :: caller :: below
      trace := s.trace ++ [.completes client.number errno] }
  else return { s with queue, stack := caller :: below }

/-- The function on top of the stack goes on to its next call or return. -/
def advance (s : State) : Except Fault State :=
  match s.stack with
  | .processLoop :: below =>
    if s.queue.canProcess then do
      let (client, queue) ← s.queue.queueProcess
      return { s with
        queue
        stack := .execute client.number false :: .processed :: below
        trace := s.trace ++ [.executes client.number] }
    else .ok { s with stack := below }
  | .processed :: below =>
    if s.queue.hasSentRequest then .ok { s with stack := below }
    else handleCompleted s 0 .processLoop below
  | .isComplete :: below =>
    if s.queue.canProcess then .ok { s with stack := .processLoop :: below }
    else .ok { s with stack := below }
  | _ => .ok s

/-- `queue_schedule`. -/
def schedule (s : State) (hasCompleted : Bool) : State :=
  let client : Client := ⟨s.clients.length, hasCompleted⟩
  { s with
    queue := s.queue.enqueue client
    clients := s.clients ++ [client]
    stack := if s.queue.isBusy then s.stack else .processLoop :: s.stack }

/-- The running `execute` sends its request on the queue's connection. -/
def send (s : State) : Except Fault State :=
  match s.stack with
  | .execute number false :: below => do
    let c ← s.queue.queueGetConn
    let queue ← s.queue.queueHasSentRequest (some c)
    return { s with
      queue
      stack := .execute number true :: below
      outstanding := s.outstanding + 1
      trace := s.trace ++ [.sends number] }
  | _ => .ok s

/-- `queue_is_complete`, called by the connection. -/
def report (s : State) (errno : Int) : Except Fault State :=
  handleCompleted { s with
    outstanding := s.outstanding - 1
    trace := s.trace ++ [.reports errno] } errno .isComplete []

/-- One step. -/
def step (s : State) : Input → Except Fault State
  | .advance => advance s
  | .schedule hasCompleted => .ok (schedule s hasCompleted)
  | .send => send s
  | .return => .ok { s with stack := s.stack.tail }
  | .report errno => report s errno

/-- Control is with a client: a callback runs, or the event loop and the main program. -/
def clientRuns (s : State) : Prop :=
  match s.stack with
  | [] | .execute _ _ :: _ | .completed _ :: _ => True
  | _ => False

/-- The inputs that the environment of the queue can give in a state: each `execute` sends at
most one request, and one completion is reported for each request, to the event loop. -/
def Enabled (s : State) : Input → Prop
  | .advance => ¬ clientRuns s
  | .schedule _ => clientRuns s
  | .send => ∃ number below, s.stack = .execute number false :: below
  | .return => clientRuns s ∧ s.stack ≠ []
  | .report _ => s.stack = [] ∧ 0 < s.outstanding

/-- The states that the queue reaches after `queue_init`. -/
inductive Reachable : State → Prop
  | init {c : ConnId} {queue : Queue Client}
      (initialised : Queue.queueInit {} c = .ok queue) : Reachable { queue }
  | step {s next : State} (earlier : Reachable s) (input : Input) (enabled : Enabled s input)
      (stepped : step s input = .ok next) : Reachable next

end FlowerRoute.Executor
