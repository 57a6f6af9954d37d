import FlowerRoute.Model.Rule

/-!
# Scanning

`scan.c` on its queue, as a machine with an explicit stack: `advance_scan` schedules requests,
and the queue calls it back, from the event loop or from inside its own `queue_schedule`. The
other clients of the queue and what the kernel reports are inputs. The chains are nodes with an
identity here, since the scan keeps a pointer into their tree.
-/

namespace FlowerRoute.Scanning

open Outcome

/-- `struct chain`, with the identity of its node. -/
structure Chain where
  node : Nat
  chainNo : UInt32
  deriving DecidableEq, Repr

/-- `enum scan_state`. -/
inductive ScanState
  | new
  | runHelpers
  | dumpChains
  | dumpEachChainInit
  | dumpEachChain
  | done
  | wait
  deriving DecidableEq, Repr

/-- The functions that `scan_helpers` points to. -/
inductive Helper
  | scanFilters
  | scanLinks
  | scanNeigh4
  | scanNeigh6
  | scanRoute4
  | scanRoute6
  deriving DecidableEq, Repr

/-- `scan_helpers`; `none` is its `NULL`. -/
def scanHelpers : List (Option Helper) :=
  [some .scanFilters, some .scanLinks, some .scanNeigh4, some .scanNeigh6, some .scanRoute4,
    some .scanRoute6, none]

/-- `struct scan`, but for its connection and its timer. -/
structure Scan where
  state : ScanState := .new
  helperIdx : Nat := 0
  nextChain : Option Chain := none
  qChainNo : UInt32 := 0
  deriving DecidableEq, Repr

/-- The scheduled items: the scan's own, that for a chain with the node that it was scheduled for,
and those of other clients with whether they have a `completed` callback. -/
inductive Item
  | scanHelper (helper : Helper)
  | scanChains
  | scanChain (ch : Chain)
  | scanBreak
  | other (hasCompleted : Bool)
  deriving DecidableEq, Repr

/-- An activation on the stack, with the point it has reached. -/
inductive Frame
  /-- `queue_process_loop` before its loop test. -/
  | processLoop
  /-- `queue_process_loop` after `queue_process` returned. -/
  | processed
  /-- `queue_is_complete` after `handle_queue_completed` returned. -/
  | isComplete
  /-- An item's `execute`, with whether it has sent its request. -/
  | execute (item : Item) (sent : Bool)
  /-- The `completed` of another client. -/
  | completed
  /-- `advance_scan` at the head of its loop. -/
  | advanceScan
  /-- `advance_scan` after it scheduled a helper. -/
  | afterHelper
  /-- `advance_scan` after it scheduled the dump of a chain. -/
  | afterChain
  /-- `advance_scan` after it scheduled `scan_break`. -/
  | afterBreak
  /-- `obj_rule_remove_pin`, called by `advance_scan`. -/
  | removePin
  deriving DecidableEq, Repr

/-- What can be observed of a scan. -/
inductive Event
  /-- A round starts: `scan_init` or the timer calls `advance_scan`. -/
  | starts
  /-- A helper is run. -/
  | runs (helper : Helper)
  /-- `scan_chains` is run. -/
  | dumpsChains
  /-- `SCAN_DUMP_EACH_CHAIN_INIT` finds these chains. -/
  | finds (chains : List Chain)
  /-- `scan_chain` is run for a chain number, having been scheduled for a chain. -/
  | dumps (ch : Chain) (chainNo : UInt32)
  /-- The dump that runs is completed. -/
  | completes
  /-- `obj_rule_remove_pin` is called. -/
  | removesPin
  deriving DecidableEq, Repr

/-- The scan, the queue, the tree of chains with the next free identity, the stack from its
top, the requests outstanding on the connection, the timer, the option of the daemon that ends
it after the first round, and the events so far. -/
structure State where
  scan : Scan := {}
  queue : Queue Item := {}
  chainTree : SearchTree Chain := .leaf
  nextNode : Nat := 0
  stack : List Frame := []
  outstanding : Nat := 0
  timerActive : Bool := false
  exitAfterFirstSync : Bool := false
  trace : List Event := []
  deriving DecidableEq, Repr

/-- What drives the machine. -/
inductive Input
  /-- The function of the queue or of the scan on top of the stack goes on. -/
  | advance
  /-- Another client schedules an item. -/
  | schedule (hasCompleted : Bool)
  /-- The running `execute` sends its request. -/
  | send
  /-- The running callback, or `obj_rule_remove_pin`, returns. -/
  | return
  /-- The connection reports a completion to the event loop. -/
  | report (errno : Int)
  /-- The timer expires. -/
  | timeout
  /-- The kernel reports a chain. -/
  | gotChain (chainNo : UInt32)
  /-- A chain is reserved. -/
  | findAvailable (minChainNo : UInt32)
  deriving DecidableEq, Repr

section Chains

/-- `chain_lookup`. -/
def chainLookup (chainNo : UInt32) (s : State) : Except Fault (Option Chain) :=
  s.chainTree.find fun this => .ok (u32cmp chainNo this.chainNo)

/-- `chain_insert`. -/
def chainInsert (balancing : SearchTree.Balancing Chain) (ch : Chain) (s : State) :
    Except Fault (Bool × State) := do
  match ← s.chainTree.link (fun this => .ok (u32cmp ch.chainNo this.chainNo)) ch with
  | none => return (false, s)
  | some linked => return (true, { s with chainTree := balancing.insertColor ch linked })

/-- `filter_got_chain`. -/
def filterGotChain (balancing : SearchTree.Balancing Chain) (chainNo : UInt32) (s : State) :
    Except Fault State := do
  match ← chainLookup chainNo s with
  | some _ => return s
  | none =>
    let ch : Chain := ⟨s.nextNode, chainNo⟩
    let (ret, s) ← chainInsert balancing ch { s with nextNode := s.nextNode + 1 }
    require Fault.assertion ret
    return s

/-- `filter_reserve_chain`. -/
def filterReserveChain (balancing : SearchTree.Balancing Chain) (chainNo : UInt32) (s : State) :
    Except Fault State := do
  let s ← filterGotChain balancing chainNo s
  let ch ← chainLookup chainNo s
  require Fault.assertion ch.isSome
  return s

/-- `filter_find_available_chain_no`. -/
def filterFindAvailableChainNo (balancing : SearchTree.Balancing Chain) (minChainNo : UInt32)
    (s : State) : Except Fault (UInt32 × State) := do
  let ret := findAvailableChainNoLoop minChainNo (s.chainTree.toList.map (·.chainNo)) 0
  let ret := if ret < minChainNo then minChainNo else ret
  let s ← filterReserveChain balancing ret s
  return (ret, s)

end Chains

/-- The event that the call of an item's `execute` is. -/
def executes (s : Scan) : Item → List Event
  | .scanHelper helper => [.runs helper]
  | .scanChains => [.dumpsChains]
  | .scanChain ch => [.dumps ch s.qChainNo]
  | .scanBreak | .other _ => []

/-- `queue_schedule`, called from the function that goes on at the top of `below`. -/
def queueSchedule (item : Item) (s : State) (below : List Frame) : State :=
  { s with
    queue := s.queue.enqueue item
    stack := if s.queue.isBusy then below else .processLoop :: below }

/-- `handle_queue_completed`, called from the function that goes on at the top of `below`; the
scan's items have `advance_scan_cb`, which calls `advance_scan`. -/
def handleCompleted (s : State) (below : List Frame) : Except Fault State := do
  let (item, queue) ← s.queue.handleQueueCompleted s.queue.conn
  match item with
  | .scanHelper _ | .scanChains | .scanChain _ =>
    return { s with
      queue, stack := .advanceScan :: below, trace := s.trace ++ [.completes] }
  | .other true => return { s with queue, stack := .completed :: below }
  | .other false | .scanBreak => return { s with queue, stack := below }

/-- `SCAN_RUN_HELPERS`. -/
def runHelpers (s : State) (below : List Frame) : Except Fault State :=
  match scanHelpers[s.scan.helperIdx]? with
  | none => .error .outOfBounds
  | some (some helper) => .ok (queueSchedule (.scanHelper helper) s (.afterHelper :: below))
  | some none => .ok { s with
      scan := { s.scan with helperIdx := 0, state := .done }, stack := .advanceScan :: below }

/-- `advance_scan` from the head of its loop, up to a call or to the next iteration. -/
def advanceScan (s : State) (below : List Frame) : Except Fault State :=
  match s.scan.state with
  | .new => do
    let queue ← s.queue.queueInit 0
    runHelpers { s with queue, scan := { s.scan with state := .runHelpers } } below
  | .runHelpers => runHelpers s below
  | .dumpChains =>
    .ok (queueSchedule .scanChains
      { s with scan := { s.scan with state := .dumpEachChainInit } } below)
  | .dumpEachChainInit =>
    let nextChain := s.chainTree.toList.head?
    let state := if nextChain = none then .runHelpers else .dumpEachChain
    .ok { s with
      scan := { s.scan with nextChain, state }
      stack := .advanceScan :: below
      trace := s.trace ++ [.finds s.chainTree.toList] }
  | .dumpEachChain =>
    match s.scan.nextChain with
    | none => .error .assertion
    | some ch => .ok (queueSchedule (.scanChain ch)
        { s with scan := { s.scan with qChainNo := ch.chainNo } } (.afterChain :: below))
  | .done => .ok { s with
      stack := .removePin :: below, trace := s.trace ++ [.removesPin] }
  | .wait =>
    if s.exitAfterFirstSync then .ok (queueSchedule .scanBreak s (.afterBreak :: below))
    else .ok { s with stack := .afterBreak :: below }

/-- The function of the queue or of the scan on top of the stack goes on to its next call or
return. -/
def advance (s : State) : Except Fault State :=
  match s.stack with
  | .processLoop :: below =>
    if s.queue.canProcess then do
      let (item, queue) ← s.queue.queueProcess
      return { s with
        queue
        stack := .execute item false :: .processed :: below
        trace := s.trace ++ executes s.scan item }
    else .ok { s with stack := below }
  | .processed :: below =>
    if s.queue.hasSentRequest then .ok { s with stack := below }
    else handleCompleted s (.processLoop :: below)
  | .isComplete :: below =>
    if s.queue.canProcess then .ok { s with stack := .processLoop :: below }
    else .ok { s with stack := below }
  | .advanceScan :: below => advanceScan s below
  | .afterHelper :: below => .ok { s with
      scan := { s.scan with helperIdx := s.scan.helperIdx + 1 }, stack := below }
  | .afterChain :: below =>
    match s.scan.nextChain with
    | none => .error .nullPointer
    | some ch =>
      let nextChain := s.chainTree.next ch
      let state := if nextChain = none then .runHelpers else s.scan.state
      .ok { s with scan := { s.scan with nextChain, state }, stack := below }
  | .afterBreak :: below => .ok { s with stack := below, timerActive := true }
  | _ => .ok s

/-- The running `execute` sends its request on the queue's connection. -/
def send (s : State) : Except Fault State :=
  match s.stack with
  | .execute item false :: below => do
    let c ← s.queue.queueGetConn
    let queue ← s.queue.queueHasSentRequest (some c)
    return { s with
      queue, stack := .execute item true :: below, outstanding := s.outstanding + 1 }
  | _ => .ok s

/-- The running callback returns; `scan_filters` sets the state before it does, and
`advance_scan` does after `obj_rule_remove_pin`. -/
def ret (s : State) : State :=
  match s.stack with
  | .execute (.scanHelper .scanFilters) _ :: below =>
    { s with scan := { s.scan with state := .dumpChains }, stack := below }
  | .removePin :: below =>
    { s with scan := { s.scan with state := .wait }, stack := .advanceScan :: below }
  | _ => { s with stack := s.stack.tail }

/-- `scan_timeout_cb`. -/
def timeout (s : State) : Except Fault State := do
  require Fault.assertion (s.scan.state = .wait)
  return { s with
    scan := { s.scan with state := .runHelpers }
    stack := [.advanceScan]
    timerActive := false
    trace := s.trace ++ [.starts] }

/-- One step. -/
def step (balancing : SearchTree.Balancing Chain) (s : State) : Input → Except Fault State
  | .advance => advance s
  | .schedule hasCompleted => .ok (queueSchedule (.other hasCompleted) s s.stack)
  | .send => send s
  | .return => .ok (ret s)
  | .report _ => handleCompleted { s with outstanding := s.outstanding - 1 } [.isComplete]
  | .timeout => timeout s
  | .gotChain chainNo => filterGotChain balancing chainNo s
  | .findAvailable minChainNo => do
    let (_, s) ← filterFindAvailableChainNo balancing minChainNo s
    return s

/-- A callback or `obj_rule_remove_pin` runs, or the event loop and the main program. -/
def clientRuns (s : State) : Prop :=
  match s.stack with
  | [] | .execute _ _ :: _ | .completed :: _ | .removePin :: _ => True
  | _ => False

/-- The code that runs is not one of the scan's own callbacks, which only send. -/
def otherRuns (s : State) : Prop :=
  match s.stack with
  | [] | .execute (.other _) _ :: _ | .completed :: _ | .removePin :: _ => True
  | _ => False

/-- The inputs that can come in a state: each `execute` sends at most one request, and one
completion is reported for each request, to the event loop. -/
def Enabled (s : State) : Input → Prop
  | .advance => ¬ clientRuns s
  | .schedule _ | .gotChain _ | .findAvailable _ => otherRuns s
  | .send => ∃ item below, s.stack = .execute item false :: below
  | .return => clientRuns s ∧ s.stack ≠ []
  | .report _ => s.stack = [] ∧ 0 < s.outstanding
  | .timeout => s.stack = [] ∧ s.timerActive = true

/-- The states that `scan_init` and what follows it reach by steps from states that meet a
condition. -/
inductive Reachable (balancing : SearchTree.Balancing Chain) (condition : State → Prop) :
    State → Prop
  | init (exitAfterFirstSync : Bool) :
    Reachable balancing condition
      { stack := [.advanceScan], exitAfterFirstSync, trace := [.starts] }
  | step {s next : State} (earlier : Reachable balancing condition s) (input : Input)
    (enabled : Enabled s input) (meets : condition s)
    (stepped : step balancing s input = .ok next) : Reachable balancing condition next

end FlowerRoute.Scanning
