import FlowerRoute.Model.Executor

/-!
# Exactly once, in order, one at a time

The invariant of the nested activations of `queue_process_loop`. At any nesting at most one
`execute` is on the stack, with the loop that called it right below. Everything under it waits
to look at the queue again. What was observed is the history of the finished items, in the
order of scheduling, and a part of the running one.
-/

namespace FlowerRoute.Executor

open Outcome

/-- What is observed of an item from its `execute` to its `completed`; `outcome` is the error
number reported for its request, if it sent one. -/
def finished (client : Client) (outcome : Option Int) : List Event :=
  .executes client.number :: (match outcome with
    | none => []
    | some errno => [.sends client.number, .reports errno]) ++
  if client.hasCompleted then [.completes client.number (outcome.getD 0)] else []

/-- What is observed of an item that has not completed. -/
def started (client : Client) (sent : Bool) : List Event :=
  .executes client.number :: if sent then [.sends client.number] else []

/-- One item after the other. -/
def history (clients : List Client) (outcomes : List (Option Int)) : List Event :=
  (List.zipWith finished clients outcomes).flatten

/-- One more finished item extends the history at its end. -/
theorem history_append {clients : List Client} {outcomes : List (Option Int)}
    (lengths : clients.length = outcomes.length) (client : Client) (outcome : Option Int) :
    history (clients ++ [client]) (outcomes ++ [outcome]) =
      history clients outcomes ++ finished client outcome := by
  simp [history, List.zipWith_append lengths]

/-- Activations under which no item is being executed. -/
def Frame.quiet : Frame → Bool
  | .execute _ _ | .processed => false
  | .processLoop | .isComplete | .completed _ => true

/-- Activations that look at the queue again before they return. -/
def Frame.resumes : Frame → Bool
  | .processLoop | .isComplete => true
  | .execute _ _ | .processed | .completed _ => false

/-- Every activation on the stack is quiet. -/
def Quiet (stack : List Frame) : Prop := ∀ frame ∈ stack, frame.quiet = true

/-- What the machine is doing, with the clients still waiting. -/
inductive Phase (s : State) (past : List Event) : List Client → Prop
  /-- No item is being executed; waiting items are picked up by an activation on the stack. -/
  | idle {waiting : List Client} (queue : s.queue.Idle)
      (items : s.queue.items.map (·.data) = waiting) (quiet : Quiet s.stack)
      (none : s.outstanding = 0)
      (resumes : waiting ≠ [] → ∃ frame ∈ s.stack, frame.resumes = true)
      (trace : s.trace = past) : Phase s past waiting
  /-- An item's `execute` is running, or has just returned to the loop. -/
  | executing {client : Client} {waiting : List (QueueItem Client)} (sent : Bool)
      {below : List Frame} (queue : s.queue.Running client waiting)
      (flag : s.queue.hasSentRequest = sent)
      (stack : s.stack = .execute client.number sent :: .processed :: below ∨
        s.stack = .processed :: below)
      (quiet : Quiet below) (count : s.outstanding = sent.toNat)
      (trace : s.trace = past ++ started client sent) :
      Phase s past (client :: waiting.map (·.data))
  /-- An item has sent its request and waits for the completion. -/
  | awaiting {client : Client} {waiting : List (QueueItem Client)}
      (queue : s.queue.Running client waiting) (quiet : Quiet s.stack)
      (one : s.outstanding = 1) (trace : s.trace = past ++ started client true) :
      Phase s past (client :: waiting.map (·.data))

/-- The invariant: the clients scheduled so far are the finished ones and the waiting ones,
numbered in order. -/
structure Invariant (s : State) (done : List Client) (outcomes : List (Option Int))
    (waiting : List Client) : Prop where
  conn : ∃ c, s.queue.conn = some c
  numbered : ∀ (i : Nat) (client : Client), s.clients[i]? = some client → client.number = i
  split : s.clients = done ++ waiting
  lengths : done.length = outcomes.length
  phase : Phase s (history done outcomes) waiting

/-- The completion of the running item, called from an activation that resumes. -/
theorem handleCompleted_phase {s : State} {client : Client} {waiting : List (QueueItem Client)}
    (past : List Event) (outcome : Option Int) (caller : Frame) (below : List Frame)
    (queue : s.queue.Running client waiting) (none : s.outstanding = 0)
    (resumes : caller.resumes = true) (quiet : Quiet below)
    (trace : s.trace = past ++ (.executes client.number :: match outcome with
      | .none => []
      | some errno => [.sends client.number, .reports errno])) :
    ∃ next, handleCompleted s (outcome.getD 0) caller below = .ok next ∧
      Phase next (past ++ finished client outcome) (waiting.map (·.data)) ∧
      next.clients = s.clients ∧ next.queue.conn = s.queue.conn := by
  obtain ⟨queue', completes, idle, items, conn⟩ := Queue.handleQueueCompleted_running queue
  have quietCaller : Quiet (caller :: below) := by
    intro frame member
    rcases List.mem_cons.mp member with rfl | deeper
    · cases frame <;> first | rfl | cases resumes
    · exact quiet frame deeper
  have waitingItems : queue'.items.map (·.data) = waiting.map (·.data) := by rw [items]
  simp only [handleCompleted, completes, bind, Except.bind, pure, Except.pure]
  split
  · rename_i callback
    refine ⟨_, rfl, .idle idle waitingItems ?_ none (fun _ => ⟨caller, by simp, resumes⟩) ?_,
      rfl, conn⟩
    · intro frame member
      rcases List.mem_cons.mp member with rfl | deeper
      · rfl
      · exact quietCaller frame deeper
    · simp [trace, finished, callback]
  · rename_i callback
    refine ⟨_, rfl, .idle idle waitingItems quietCaller none
      (fun _ => ⟨caller, by simp, resumes⟩) ?_, rfl, conn⟩
    simp [trace, finished, callback]

section Steps

variable {s : State} {done waiting : List Client} {outcomes : List (Option Int)}

/-- A step that keeps the clients and the finished items keeps the invariant with the phase. -/
theorem Invariant.same (inv : Invariant s done outcomes waiting) {next : State}
    (clients : next.clients = s.clients) (conn : next.queue.conn = s.queue.conn)
    (phase : Phase next (history done outcomes) waiting) :
    Invariant next done outcomes waiting where
  conn := by rw [conn]; exact inv.conn
  numbered := by rw [clients]; exact inv.numbered
  split := by rw [clients]; exact inv.split
  lengths := inv.lengths
  phase := phase

/-- A step that finishes the running item moves it to the finished ones. -/
theorem Invariant.finish {client : Client} {rest : List Client}
    (inv : Invariant s done outcomes (client :: rest)) {next : State} {outcome : Option Int}
    (clients : next.clients = s.clients) (conn : next.queue.conn = s.queue.conn)
    (phase : Phase next (history done outcomes ++ finished client outcome) rest) :
    Invariant next (done ++ [client]) (outcomes ++ [outcome]) rest where
  conn := by rw [conn]; exact inv.conn
  numbered := by rw [clients]; exact inv.numbered
  split := by rw [clients, inv.split]; simp
  lengths := by simp [inv.lengths]
  phase := by rw [history_append inv.lengths]; exact phase

/-- An activation on top of an idle queue starts the first waiting item or returns. -/
theorem advance_idle {past : List Event} (queue : s.queue.Idle)
    (items : s.queue.items.map (·.data) = waiting) (quiet : Quiet s.stack)
    (none : s.outstanding = 0) (trace : s.trace = past)
    (busyStack : ¬ clientRuns s) :
    ∃ next, advance s = .ok next ∧ Phase next past waiting ∧
      next.clients = s.clients ∧ next.queue.conn = s.queue.conn := by
  have returns : s.queue.canProcess = false → ∀ below, Quiet below →
      Phase { s with stack := below } past waiting := by
    intro stop below quietBelow
    refine .idle queue items quietBelow none (fun some => ?_) trace
    simp only [Queue.canProcess, queue.1, Bool.not_false, Bool.and_true, Bool.not_eq_false',
      List.isEmpty_iff] at stop
    rw [stop] at items
    exact absurd items.symm some
  match stack : s.stack with
  | [] => simp [clientRuns, stack] at busyStack
  | .execute _ _ :: _ | .completed _ :: _ => simp [clientRuns, stack] at busyStack
  | .processed :: _ => simp [Quiet, stack, Frame.quiet] at quiet
  | .isComplete :: below =>
    have quietBelow : Quiet below := fun frame member =>
      quiet frame (by rw [stack]; exact List.mem_cons_of_mem _ member)
    simp only [advance, stack]
    split
    · refine ⟨_, rfl, .idle queue items ?_ none (fun _ => ⟨.processLoop, by simp, rfl⟩) trace,
        rfl, rfl⟩
      intro frame member
      rcases List.mem_cons.mp member with rfl | deeper
      · rfl
      · exact quietBelow frame deeper
    · rename_i stop
      exact ⟨_, rfl, returns (by simpa using stop) below quietBelow, rfl, rfl⟩
  | .processLoop :: below =>
    have quietBelow : Quiet below := fun frame member =>
      quiet frame (by rw [stack]; exact List.mem_cons_of_mem _ member)
    simp only [advance, stack]
    split
    · rename_i go
      obtain ⟨qi, rest, head⟩ : ∃ qi rest, s.queue.items = qi :: rest := by
        cases list : s.queue.items with
        | nil => simp [Queue.canProcess, list] at go
        | cons qi rest => exact ⟨qi, rest, rfl⟩
      obtain ⟨queue', processes, running, flag, conn⟩ := Queue.queueProcess_idle queue head
      have split : waiting = qi.data :: rest.map (·.data) := by simp [← items, head]
      simp only [processes, bind, Except.bind, pure, Except.pure]
      refine ⟨_, rfl, ?_, rfl, conn⟩
      rw [split]
      exact .executing false running flag (.inl rfl) quietBelow none
        (by simp [trace, started])
    · rename_i stop
      exact ⟨_, rfl, returns (by simpa using stop) below quietBelow, rfl, rfl⟩

/-- Activations that resume while an item is running only return. -/
theorem advance_awaiting {past : List Event} {client : Client}
    {rest : List (QueueItem Client)} (queue : s.queue.Running client rest)
    (quiet : Quiet s.stack) (one : s.outstanding = 1)
    (trace : s.trace = past ++ started client true) (busyStack : ¬ clientRuns s) :
    ∃ next, advance s = .ok next ∧ Phase next past (client :: rest.map (·.data)) ∧
      next.clients = s.clients ∧ next.queue.conn = s.queue.conn := by
  have stop : s.queue.canProcess = false := by simp [Queue.canProcess, queue.1]
  have returns : ∀ top below, s.stack = top :: below →
      Phase { s with stack := below } past (client :: rest.map (·.data)) :=
    fun top below stack => .awaiting queue
      (fun frame member => quiet frame (by rw [stack]; exact List.mem_cons_of_mem _ member))
      one trace
  match stack : s.stack with
  | [] => simp [clientRuns, stack] at busyStack
  | .execute _ _ :: _ | .completed _ :: _ => simp [clientRuns, stack] at busyStack
  | .processed :: _ => simp [Quiet, stack, Frame.quiet] at quiet
  | .isComplete :: below | .processLoop :: below =>
    simp only [advance, stack, stop]
    exact ⟨_, rfl, returns _ below stack, rfl, rfl⟩

/-- A step of the queue's own functions keeps the invariant. -/
theorem advance_invariant (inv : Invariant s done outcomes waiting)
    (busyStack : ¬ clientRuns s) :
    ∃ next, advance s = .ok next ∧
      ∃ done outcomes waiting, Invariant next done outcomes waiting := by
  cases inv.phase with
  | idle queue items quiet none resumes trace =>
    obtain ⟨next, advances, phase, clients, conn⟩ :=
      advance_idle queue items quiet none trace busyStack
    exact ⟨next, advances, _, _, _, inv.same clients conn phase⟩
  | awaiting queue quiet one trace =>
    obtain ⟨next, advances, phase, clients, conn⟩ :=
      advance_awaiting queue quiet one trace busyStack
    exact ⟨next, advances, _, _, _, inv.same clients conn phase⟩
  | executing sent queue flag stack quiet count trace =>
    rename_i client rest below
    rcases stack with running | returned
    · simp [clientRuns, running] at busyStack
    · simp only [advance, returned, flag]
      cases sent with
      | true => exact ⟨_, rfl, _, _, _, inv.same rfl rfl (.awaiting queue quiet count trace)⟩
      | false =>
        obtain ⟨next, completes, phase, clients, conn⟩ :=
          handleCompleted_phase _ none .processLoop below queue count rfl quiet trace
        exact ⟨next, completes, _, _, _, inv.finish clients conn phase⟩

/-- Scheduling adds the new client at the end of the waiting ones. -/
theorem schedule_invariant (inv : Invariant s done outcomes waiting) (hasCompleted : Bool) :
    Invariant (schedule s hasCompleted) done outcomes
      (waiting ++ [⟨s.clients.length, hasCompleted⟩]) where
  conn := inv.conn
  numbered i other found := by
    simp only [schedule, List.getElem?_append] at found
    split at found
    · exact inv.numbered i other found
    · have last : i = s.clients.length := by
        have := (List.getElem?_eq_some_iff.mp found).1
        simp only [List.length_singleton] at this
        omega
      subst last
      simp only [Nat.sub_self, List.getElem?_cons_zero, Option.some.injEq] at found
      simp [← found]
  split := by simp [schedule, inv.split]
  lengths := inv.lengths
  phase := by
    cases inv.phase with
    | idle queue items quiet none resumes trace =>
      refine .idle (queue.enqueue _) (by simp [schedule, Queue.enqueue, items]) ?_ none
        (fun _ => ⟨.processLoop, by simp [schedule, queue.1], rfl⟩) trace
      intro frame member
      simp only [schedule, queue.1] at member
      rcases List.mem_cons.mp member with rfl | deeper
      · rfl
      · exact quiet frame deeper
    | executing sent queue flag stack quiet count trace =>
      have same : (schedule s hasCompleted).stack = s.stack := by simp [schedule, queue.1]
      have phase := Phase.executing (s := schedule s hasCompleted) sent (queue.enqueue _) flag
        (by rw [same]; exact stack) quiet count trace
      simpa using phase
    | awaiting queue quiet one trace =>
      have same : (schedule s hasCompleted).stack = s.stack := by simp [schedule, queue.1]
      have phase := Phase.awaiting (s := schedule s hasCompleted) (queue.enqueue _)
        (by rw [same]; exact quiet) one trace
      simpa using phase

/-- Sending is only possible from the running item, once. -/
theorem send_invariant (inv : Invariant s done outcomes waiting)
    (enabled : Enabled s .send) :
    ∃ next, send s = .ok next ∧ Invariant next done outcomes waiting := by
  obtain ⟨number, below, stack⟩ := enabled
  obtain ⟨c, conn⟩ := inv.conn
  have sends : send s = .ok { s with
      queue := { s.queue with hasSentRequest := true }
      stack := .execute number true :: below
      outstanding := s.outstanding + 1
      trace := s.trace ++ [.sends number] } := by
    simp [send, stack, Queue.queueGetConn, conn, Queue.queueHasSentRequest, require, bind,
      Except.bind, pure, Except.pure]
  refine ⟨_, sends, inv.same rfl rfl ?_⟩
  cases inv.phase with
  | idle queue items quiet none resumes trace => simp [Quiet, stack, Frame.quiet] at quiet
  | awaiting queue quiet one trace => simp [Quiet, stack, Frame.quiet] at quiet
  | executing sent queue flag shape quiet count trace =>
    rcases shape with running | returned
    · rw [stack] at running
      cases running
      exact .executing true queue rfl (.inl rfl) quiet (by simp [count])
        (by simp [trace, started])
    · rw [stack] at returned
      cases returned

/-- A callback that returns gives control back to the activation below. -/
theorem return_invariant (inv : Invariant s done outcomes waiting)
    (enabled : Enabled s .return) :
    Invariant { s with stack := s.stack.tail } done outcomes waiting := by
  obtain ⟨client, nonempty⟩ := enabled
  refine inv.same rfl rfl ?_
  have quietTail : Quiet s.stack → Quiet s.stack.tail :=
    fun quiet frame member => quiet frame (List.mem_of_mem_tail member)
  cases inv.phase with
  | idle queue items quiet none resumes trace =>
    refine .idle queue items (quietTail quiet) none (fun some => ?_) trace
    obtain ⟨frame, member, resume⟩ := resumes some
    refine ⟨frame, ?_, resume⟩
    -- the callback itself does not resume, so the activation that does is below it
    cases stack : s.stack with
    | nil => exact absurd stack nonempty
    | cons top below =>
      rw [stack] at member
      rcases List.mem_cons.mp member with rfl | deeper
      · cases frame <;> simp [clientRuns, stack, Frame.resumes] at client resume
      · simpa [stack] using deeper
  | awaiting queue quiet one trace => exact .awaiting queue (quietTail quiet) one trace
  | executing sent queue flag shape quiet count trace =>
    rcases shape with running | returned
    · exact .executing sent queue flag (.inr (by simp [running])) quiet count trace
    · simp [clientRuns, returned] at client

/-- A reported completion finishes the running item. -/
theorem report_invariant (inv : Invariant s done outcomes waiting) {errno : Int}
    (enabled : Enabled s (.report errno)) :
    ∃ next, report s errno = .ok next ∧
      ∃ done outcomes waiting, Invariant next done outcomes waiting := by
  obtain ⟨stack, positive⟩ := enabled
  cases inv.phase with
  | idle queue items quiet none resumes trace => omega
  | executing sent queue flag shape quiet count trace => simp [stack] at shape
  | awaiting queue quiet one trace =>
    rename_i client rest
    obtain ⟨next, completes, phase, clients, conn⟩ :=
      handleCompleted_phase (s := { s with
          outstanding := s.outstanding - 1
          trace := s.trace ++ [.reports errno] })
        (history done outcomes) (some errno) .isComplete [] queue (by simp [one]) rfl (by simp [Quiet])
        (by simp [trace, started])
    exact ⟨next, completes, _, _, _, inv.finish clients conn phase⟩

end Steps

/-- Every enabled step succeeds and keeps the invariant. -/
theorem step_invariant {s : State} {done waiting : List Client} {outcomes : List (Option Int)}
    (inv : Invariant s done outcomes waiting) {input : Input} (enabled : Enabled s input) :
    ∃ next, step s input = .ok next ∧
      ∃ done outcomes waiting, Invariant next done outcomes waiting := by
  cases input with
  | advance => exact advance_invariant inv enabled
  | schedule hasCompleted =>
    exact ⟨_, rfl, _, _, _, schedule_invariant inv hasCompleted⟩
  | send =>
    obtain ⟨next, sends, kept⟩ := send_invariant inv enabled
    exact ⟨next, sends, _, _, _, kept⟩
  | «return» => exact ⟨_, rfl, _, _, _, return_invariant inv enabled⟩
  | report errno => exact report_invariant inv enabled

/-- Every reachable state satisfies the invariant. -/
theorem reachable_invariant {s : State} (reachable : Reachable s) :
    ∃ done outcomes waiting, Invariant s done outcomes waiting := by
  induction reachable with
  | init initialised =>
    cases initialised
    exact ⟨[], [], [], ⟨_, rfl⟩, by simp, rfl, rfl,
      .idle ⟨rfl, by simp⟩ rfl (by simp [Quiet]) rfl (by simp) rfl⟩
  | step earlier input enabled stepped ih =>
    obtain ⟨done, outcomes, waiting, inv⟩ := ih
    obtain ⟨next, steps, kept⟩ := step_invariant inv enabled
    rw [steps] at stepped
    cases stepped
    exact kept

/-! ## Progress -/

/-- A step on which nothing is scheduled. -/
def Step (s next : State) : Prop :=
  ∃ input, Enabled s input ∧ (∀ hasCompleted, input ≠ .schedule hasCompleted) ∧
    step s input = .ok next

/-- Some steps on which nothing is scheduled. -/
inductive Steps : Nat → State → State → Prop
  | none (s : State) : Steps 0 s s
  | more {n : Nat} {s next last : State} (earlier : Steps n s next) (step : Step next last) :
      Steps (n + 1) s last

/-- How many steps an activation on the stack may still take. -/
def Frame.work : Frame → Nat
  | .isComplete | .execute _ false => 2
  | .processLoop | .processed | .execute _ true | .completed _ => 1

/-- The same for a queued item: a waiting one has its `execute` before it, too. -/
def itemWork (qi : QueueItem Client) : Nat := if qi.state = .new then 7 else 4

/-- A bound on the steps until everything that was scheduled has been executed. -/
def State.work (s : State) : Nat :=
  (s.queue.items.map itemWork).sum + (s.stack.map Frame.work).sum

section Progress

variable {s next : State}

theorem Frame.work_pos (frame : Frame) : 0 < frame.work := by
  cases frame with
  | execute number sent => cases sent <;> exact Nat.succ_pos _
  | processLoop | processed | isComplete | completed => exact Nat.succ_pos _

/-- The completion of an item takes its work off, but for its callback and the caller. -/
theorem handleCompleted_work {errno : Int} {caller : Frame} {below : List Frame}
    (completes : handleCompleted s errno caller below = .ok next) :
    next.work + 3 ≤ (s.queue.items.map itemWork).sum + caller.work + (below.map Frame.work).sum := by
  rw [handleCompleted] at completes
  obtain ⟨⟨client, queue⟩, handled, completes⟩ := bind_returned completes
  obtain ⟨-, rest, items, rfl⟩ := Queue.handleQueueCompleted_ok handled
  have four : itemWork ⟨client, .sent⟩ = 4 := rfl
  dsimp only at completes
  rw [items, List.map_cons, List.sum_cons, four]
  split at completes
  · cases completes
    simp only [State.work, List.map_cons, List.sum_cons, Frame.work]
    omega
  · cases completes
    simp only [State.work, List.map_cons, List.sum_cons]
    omega

/-- A step of the queue's own functions takes work off. -/
theorem advance_work (own : ¬ clientRuns s) (advances : advance s = .ok next) :
    next.work < s.work := by
  rw [advance] at advances
  cases stack : s.stack with
  | nil => exact absurd (by rw [clientRuns, stack]; trivial) own
  | cons frame below =>
    have before : s.work = (s.queue.items.map itemWork).sum +
        (frame.work + (below.map Frame.work).sum) := by
      rw [State.work, stack, List.map_cons, List.sum_cons]
    rw [stack] at advances
    cases frame with
    | processLoop =>
      dsimp only at advances
      split at advances
      · obtain ⟨⟨client, queue⟩, processed, advances⟩ := bind_returned advances
        cases advances
        obtain ⟨rest, items, rfl⟩ := Queue.queueProcess_ok processed
        have seven : itemWork ⟨client, .new⟩ = 7 := rfl
        have four : itemWork ⟨client, .sent⟩ = 4 := rfl
        rw [before, items, List.map_cons, List.sum_cons, seven]
        simp only [State.work, List.map_cons, List.sum_cons, four, Frame.work]
        omega
      · cases advances
        rw [before]
        simp only [State.work, Frame.work]
        omega
    | processed =>
      dsimp only at advances
      split at advances
      · cases advances
        rw [before]
        simp only [State.work, Frame.work]
        omega
      · have less := handleCompleted_work advances
        rw [before]
        simp only [Frame.work] at less ⊢
        omega
    | isComplete =>
      dsimp only at advances
      split at advances
      · cases advances
        rw [before]
        simp only [State.work, List.map_cons, List.sum_cons, Frame.work]
        omega
      · cases advances
        rw [before]
        simp only [State.work, Frame.work]
        omega
    | execute number sent => exact absurd (by rw [clientRuns, stack]; trivial) own
    | completed number => exact absurd (by rw [clientRuns, stack]; trivial) own

/-- Every step on which nothing is scheduled takes work off. -/
theorem Step.work (step : Step s next) : next.work < s.work := by
  obtain ⟨input, enabled, quiet, stepped⟩ := step
  cases input with
  | advance => exact advance_work enabled stepped
  | schedule hasCompleted => exact absurd rfl (quiet hasCompleted)
  | send =>
    obtain ⟨number, below, stack⟩ := enabled
    rw [Executor.step, send, stack] at stepped
    obtain ⟨conn, -, stepped⟩ := bind_returned stepped
    obtain ⟨queue, marked, stepped⟩ := bind_returned stepped
    obtain ⟨_, -, marked⟩ := bind_returned marked
    cases marked
    cases stepped
    simp only [State.work, stack, List.map_cons, List.sum_cons, Frame.work]
    omega
  | «return» =>
    cases stepped
    cases stack : s.stack with
    | nil => exact absurd stack enabled.2
    | cons frame below =>
      have positive := frame.work_pos
      simp only [State.work, stack, List.tail_cons, List.map_cons, List.sum_cons]
      omega
  | report errno =>
    have less := handleCompleted_work (s := { s with
      outstanding := s.outstanding - 1
      trace := s.trace ++ [.reports errno] }) stepped
    have empty := enabled.1
    simp only [State.work, empty, Frame.work, List.map_nil, List.sum_nil] at less ⊢
    omega

/-- There are at most as many such steps as there is work. -/
theorem Steps.bounded {n : Nat} (steps : Steps n s next) : n + next.work ≤ s.work := by
  induction steps with
  | none s => exact Nat.le_of_eq (Nat.zero_add _)
  | more earlier step ih =>
    have less := step.work
    omega

/-- A step on which nothing is scheduled keeps the items that were. -/
theorem Step.clients (step : Step s next) : next.clients = s.clients := by
  have completed : ∀ {s : State} {errno : Int} {caller : Frame} {below : List Frame},
      handleCompleted s errno caller below = .ok next → next.clients = s.clients := by
    intro s errno caller below completes
    rw [handleCompleted] at completes
    obtain ⟨⟨client, queue⟩, -, completes⟩ := bind_returned completes
    dsimp only at completes
    split at completes <;> cases completes <;> rfl
  obtain ⟨input, enabled, quiet, stepped⟩ := step
  cases input with
  | advance =>
    rw [Executor.step, advance] at stepped
    split at stepped
    · split at stepped
      · obtain ⟨⟨client, queue⟩, -, stepped⟩ := bind_returned stepped
        cases stepped
        rfl
      · cases stepped
        rfl
    · split at stepped
      · cases stepped
        rfl
      · exact completed stepped
    · split at stepped <;> cases stepped <;> rfl
    · cases stepped
      rfl
  | schedule hasCompleted => exact absurd rfl (quiet hasCompleted)
  | send =>
    obtain ⟨number, below, stack⟩ := enabled
    rw [Executor.step, send, stack] at stepped
    obtain ⟨conn, -, stepped⟩ := bind_returned stepped
    obtain ⟨queue, -, stepped⟩ := bind_returned stepped
    cases stepped
    rfl
  | «return» =>
    cases stepped
    rfl
  | report errno => exact completed (s := { s with
      outstanding := s.outstanding - 1
      trace := s.trace ++ [.reports errno] }) stepped

/-- Steps lead from reachable states to reachable ones. -/
theorem Steps.reachable {n : Nat} (steps : Steps n s next) (reachable : Reachable s) :
    Reachable next ∧ next.clients = s.clients := by
  induction steps with
  | none s => exact ⟨reachable, rfl⟩
  | more earlier step ih =>
    obtain ⟨before, clients⟩ := ih reachable
    have same := step.clients
    obtain ⟨input, enabled, -, stepped⟩ := step
    exact ⟨before.step input enabled stepped, same.trans clients⟩

/-- Where there is no such step, the event loop waits for no completion. -/
theorem Reachable.stuck (reachable : Reachable s) (stuck : ∀ next, ¬ Step s next) :
    s.stack = [] ∧ s.outstanding = 0 := by
  obtain ⟨done, outcomes, waiting, inv⟩ := reachable_invariant reachable
  have blocked : ∀ input, (∀ hasCompleted, input ≠ .schedule hasCompleted) → ¬ Enabled s input := by
    intro input quiet enabled
    obtain ⟨next, stepped, -⟩ := step_invariant inv enabled
    exact stuck next ⟨input, enabled, quiet, stepped⟩
  have client : clientRuns s := by
    by_contra own
    exact blocked .advance (fun _ same => by cases same) own
  have empty : s.stack = [] := by
    by_contra frames
    exact blocked .return (fun _ same => by cases same) ⟨client, frames⟩
  refine ⟨empty, ?_⟩
  by_contra waits
  exact blocked (.report 0) (fun _ same => by cases same) ⟨empty, Nat.pos_of_ne_zero waits⟩

/-- In the event loop with no request outstanding everything has been executed. -/
theorem Reachable.drained (reachable : Reachable s) (empty : s.stack = [])
    (none : s.outstanding = 0) : s.queue.items = [] ∧
      ∃ outcomes, s.clients.length = outcomes.length ∧ s.trace = history s.clients outcomes := by
  obtain ⟨done, outcomes, waiting, inv⟩ := reachable_invariant reachable
  cases inv.phase with
  | idle queue items quiet none resumes trace =>
    have drained : waiting = [] := by
      by_contra some
      obtain ⟨frame, member, -⟩ := resumes some
      simp [empty] at member
    subst drained
    have clients : s.clients = done := by simp [inv.split]
    exact ⟨by simpa using items, outcomes, by rw [clients, inv.lengths], by rw [clients, trace]⟩
  | executing sent queue flag shape quiet count trace =>
    rw [empty] at shape
    simp at shape
  | awaiting queue quiet one trace => omega

/-- Steps on which nothing is scheduled end, and end where everything has been executed. -/
theorem Reachable.finishes (reachable : Reachable s) {n : Nat} (steps : Steps n s next) :
    n ≤ s.work ∧ ((∀ last, ¬ Step next last) →
      next.stack = [] ∧ next.outstanding = 0 ∧ next.queue.items = [] ∧
      ∃ outcomes, s.clients.length = outcomes.length ∧
        next.trace = history s.clients outcomes) := by
  refine ⟨Nat.le_trans (Nat.le_add_right n next.work) steps.bounded, fun stuck => ?_⟩
  obtain ⟨reached, clients⟩ := steps.reachable reachable
  obtain ⟨empty, none⟩ := reached.stuck stuck
  have drained := reached.drained empty none
  rw [clients] at drained
  exact ⟨empty, none, drained⟩

end Progress

/-! ## The order of events -/

/-- How far the item that is being executed has come, as observed. -/
inductive Partial (waiting : List Client) : List Event → Prop
  | none : Partial waiting []
  | executing {client : Client} {rest : List Client} (sent : Bool)
      (next : waiting = client :: rest) : Partial waiting (started client sent)

/-- The queue executes what is scheduled exactly once, in the order of scheduling, with each
`completed` before the next `execute` and with the reported error number; never are two
requests outstanding; no assertion fails; and in the event loop with no request outstanding
everything has been executed. When nothing more is scheduled, this is where every run comes to
after a bounded number of steps: the queue goes on until it has executed everything. -/
theorem queue_exactly_once_in_order {s : State} (reachable : Reachable s) :
    (∃ done outcomes waiting current, s.clients = done ++ waiting ∧
      done.length = outcomes.length ∧ Partial waiting current ∧
      s.trace = history done outcomes ++ current) ∧
    (∀ (i : Nat) (client : Client), s.clients[i]? = some client → client.number = i) ∧
    s.outstanding ≤ 1 ∧
    (∀ input, Enabled s input → ∃ next, step s input = .ok next) ∧
    (s.stack = [] → s.outstanding = 0 → s.queue.items = [] ∧
      ∃ outcomes, s.clients.length = outcomes.length ∧ s.trace = history s.clients outcomes) ∧
    ∀ n next, Steps n s next → n ≤ s.work ∧ ((∀ last, ¬ Step next last) →
      next.stack = [] ∧ next.outstanding = 0 ∧ next.queue.items = [] ∧
      ∃ outcomes, s.clients.length = outcomes.length ∧
        next.trace = history s.clients outcomes) := by
  obtain ⟨done, outcomes, waiting, inv⟩ := reachable_invariant reachable
  have steps : ∀ input, Enabled s input → ∃ next, step s input = .ok next := fun input enabled => by
    obtain ⟨next, stepped, -⟩ := step_invariant inv enabled
    exact ⟨next, stepped⟩
  have ends := And.intro reachable.drained
    fun n next (steps : Steps n s next) => reachable.finishes steps
  cases inv.phase with
  | idle queue items quiet none resumes trace =>
    exact ⟨⟨done, outcomes, waiting, [], inv.split, inv.lengths, .none, by simp [trace]⟩,
      inv.numbered, by omega, steps, ends⟩
  | executing sent queue flag shape quiet count trace =>
    refine ⟨⟨done, outcomes, _, _, inv.split, inv.lengths, .executing sent rfl, trace⟩,
      inv.numbered, ?_, steps, ends⟩
    cases sent <;> simp [count]
  | awaiting queue quiet one trace =>
    exact ⟨⟨done, outcomes, _, _, inv.split, inv.lengths, .executing true rfl, trace⟩,
      inv.numbered, by omega, steps, ends⟩

/-- Two items scheduled at once: the first sends a request that is answered with an error, the
second sends nothing. -/
theorem queue_exactly_once_in_order_two : ∃ s, Reachable s ∧
    s.trace = [.executes 0, .sends 0, .reports (-17), .completes 0 (-17), .executes 1,
      .completes 1 0] ∧
    ∃ outcomes, s.clients.length = outcomes.length ∧ s.trace = history s.clients outcomes := by
  have reached := ((Reachable.init (c := 0) rfl).step (.schedule true) trivial rfl)
    |>.step .advance id rfl
    |>.step (.schedule true) trivial rfl
    |>.step .send ⟨_, _, rfl⟩ rfl
    |>.step .return ⟨trivial, by decide⟩ rfl
    |>.step .advance id rfl
    |>.step (.report (-17)) ⟨rfl, by decide⟩ rfl
    |>.step .return ⟨trivial, by decide⟩ rfl
    |>.step .advance id rfl
    |>.step .advance id rfl
    |>.step .return ⟨trivial, by decide⟩ rfl
    |>.step .advance id rfl
    |>.step .return ⟨trivial, by decide⟩ rfl
    |>.step .advance id rfl
  exact ⟨_, reached, rfl, ((queue_exactly_once_in_order reached).2.2.2.2.1 rfl rfl).2⟩

end FlowerRoute.Executor
