import FlowerRoute.Verif.Scanning

/-!
# A scan goes on

Until somebody else schedules an item, a chain is reported or the timer expires, a scan and its
queue take a bounded number of steps. Every step takes work off, but for what is executed of the
scan's own, and that is bounded by the rounds that have started and the chains that are known.
-/

namespace FlowerRoute.Scanning

open Outcome

/-- Inputs on which no item of others is scheduled, no chain is reported and no round starts. -/
def Input.Own : Input → Prop
  | .advance | .send | .return | .report _ => True
  | .schedule _ | .timeout | .gotChain _ | .findAvailable _ => False

/-- A step on such an input, where `advance_scan` is not called early. -/
def Step (balancing : SearchTree.Balancing Chain) (s next : State) : Prop :=
  ∃ input, Enabled s input ∧ input.Own ∧ ¬ Reenters s ∧ step balancing s input = .ok next

/-- Some such steps. -/
inductive Steps (balancing : SearchTree.Balancing Chain) : Nat → State → State → Prop
  | none (s : State) : Steps balancing 0 s s
  | more {n : Nat} {s next last : State} (earlier : Steps balancing n s next)
      (step : Step balancing next last) : Steps balancing (n + 1) s last

/-- The chain that is dumped. -/
def Event.dumped? : Event → Option Chain
  | .dumps ch _ => some ch
  | _ => none

/-- Events that there are only so many of in a round, whatever chains are known. -/
def Event.plain : Event → Bool
  | .runs _ | .dumpsChains | .removesPin => true
  | .starts | .finds _ | .dumps _ _ | .completes => false

/-- What is executed of a round. -/
def Event.works (e : Event) : Bool := e.plain || e.dumped?.isSome

/-- What an activation may still cost. -/
def Frame.work : Frame → Nat
  | .processLoop | .processed | .completed | .afterHelper | .afterBreak => 1
  | .isComplete => 2
  | .afterChain => 5
  | .execute _ true => 6
  | .execute _ false => 7
  | .advanceScan => 19
  | .removePin => 20

/-- The same for a queued item, but for the `execute` of one of the scan's own. -/
def itemWork (qi : QueueItem Item) : Nat :=
  if qi.state = .new then 12 else if qi.data.scans then 22 else 4

/-- The same for the cases that `advance_scan` goes through before it schedules. -/
def ScanState.work : ScanState → Nat
  | .wait => 0
  | .done => 2
  | .new | .runHelpers | .dumpEachChain => 3
  | .dumpChains | .dumpEachChainInit => 4

/-- What may be done before something of the scan's own is executed. -/
def State.load (s : State) : Nat :=
  (s.queue.items.map itemWork).sum + (s.stack.map Frame.work).sum + s.scan.state.work

/-- How much is executed at most in the rounds that have started. -/
def State.budget (s : State) : Nat :=
  s.trace.count .starts * (8 + s.chainTree.toList.length)

/-- A bound on the steps until the rounds that have started are over. -/
def State.work (s : State) : Nat := 18 * (s.budget - s.trace.countP Event.works) + s.load

section Notes

/-- The chains that were dumped, are to be, or are pointed to are in the tree. -/
structure Noted (s : State) : Prop where
  dumped : ∀ ch chainNo, .dumps ch chainNo ∈ s.trace → ch ∈ s.chainTree.toList
  queued : ∀ qi ∈ s.queue.items, ∀ ch, qi.data = .scanChain ch → ch ∈ s.chainTree.toList
  pointed : ∀ ch, s.scan.nextChain = some ch → ch ∈ s.chainTree.toList

/-- What a step that takes work off does to the events, the tree and the notes. -/
structure Spends (s next : State) : Prop where
  tree : next.chainTree = s.chainTree
  noted : Noted s → Noted next
  observed : ∃ events, next.trace = s.trace ++ events ∧ .starts ∉ events ∧
    next.load < s.load + 18 * events.countP Event.works

variable {s next : State} {below : List Frame}

/-- Nothing is observed, and the chains are as they were. -/
theorem Spends.quiet (tree : next.chainTree = s.chainTree) (trace : next.trace = s.trace)
    (queued : ∀ qi ∈ next.queue.items, ∀ ch, qi.data = .scanChain ch →
      (∃ qi ∈ s.queue.items, qi.data = .scanChain ch) ∨ s.scan.nextChain = some ch)
    (pointed : ∀ ch, next.scan.nextChain = some ch →
      s.scan.nextChain = some ch ∨ ch ∈ s.chainTree.toList)
    (less : next.load < s.load) : Spends s next where
  tree := tree
  noted noted := by
    refine ⟨fun ch chainNo dumped => ?_, fun qi inside ch data => ?_, fun ch here => ?_⟩
    · rw [tree]
      exact noted.dumped ch chainNo (trace ▸ dumped)
    · rw [tree]
      rcases queued qi inside ch data with ⟨old, inside, data⟩ | here
      · exact noted.queued old inside ch data
      · exact noted.pointed ch here
    · rw [tree]
      exact (pointed ch here).elim (noted.pointed ch) id
  observed := ⟨[], by rw [trace, List.append_nil], List.not_mem_nil, less⟩

/-- The load with an activation on top. -/
theorem State.load_cons {frame : Frame} (stack : s.stack = frame :: below) :
    s.load = (s.queue.items.map itemWork).sum + (frame.work + (below.map Frame.work).sum) +
      s.scan.state.work := by
  rw [load, stack, List.map_cons, List.sum_cons]

/-- What scheduling an item adds to the load. -/
theorem queueSchedule_load (item : Item) (s : State) (below : List Frame) :
    (queueSchedule item s below).load ≤ (s.queue.items.map itemWork).sum +
      (below.map Frame.work).sum + s.scan.state.work + 13 := by
  have fresh : itemWork { data := item } = 12 := rfl
  unfold State.load queueSchedule Queue.enqueue
  dsimp only
  rw [List.map_append, List.map_singleton, List.sum_append, List.sum_singleton, fresh]
  split
  · omega
  · rw [List.map_cons, List.sum_cons, Frame.work]
    omega

/-- An item of a queue that another was added to. -/
theorem queueSchedule_queued {item : Item} {below : List Frame} {qi : QueueItem Item}
    (inside : qi ∈ (queueSchedule item s below).queue.items) :
    qi ∈ s.queue.items ∨ qi.data = item := by
  rcases List.mem_append.mp inside with old | new
  · exact .inl old
  · rw [List.mem_singleton.mp new]
    exact .inr rfl

/-- The completion of an item takes more work off than its callback adds. -/
theorem handleCompleted_spends (completes : handleCompleted s below = .ok next) :
    next.chainTree = s.chainTree ∧ (Noted s → Noted next) ∧
      ∃ events, next.trace = s.trace ++ events ∧ .starts ∉ events ∧
        next.load + 3 ≤ (s.queue.items.map itemWork).sum + (below.map Frame.work).sum +
          s.scan.state.work := by
  rw [handleCompleted] at completes
  obtain ⟨⟨item, queue⟩, handled, completes⟩ := bind_returned completes
  obtain ⟨-, rest, items, rfl⟩ := Queue.handleQueueCompleted_ok handled
  have keeps : ∀ (stack : List Frame) (events : List Event), (∀ ch chainNo,
      Event.dumps ch chainNo ∉ events) → Noted s → Noted { s with
        queue := { s.queue with items := rest, isBusy := false }
        stack, trace := s.trace ++ events } := by
    intro stack events silent noted
    refine ⟨fun ch chainNo dumped => ?_, fun qi inside => ?_, noted.pointed⟩
    · exact noted.dumped ch chainNo
        ((List.mem_append.mp dumped).resolve_right (silent ch chainNo))
    · exact noted.queued qi (by rw [items]; exact List.mem_cons_of_mem _ inside)
  have load : (s.queue.items.map itemWork).sum =
      itemWork ⟨item, .sent⟩ + (rest.map itemWork).sum := by
    rw [items, List.map_cons, List.sum_cons]
  have silent : ∀ ch chainNo, Event.dumps ch chainNo ∉ [Event.completes] := by
    intro ch chainNo inside
    cases List.mem_singleton.mp inside
  have none : ∀ ch chainNo, Event.dumps ch chainNo ∉ ([] : List Event) :=
    fun _ _ => List.not_mem_nil
  rw [load]
  cases item with
  | scanHelper | scanChains | scanChain =>
    cases completes
    refine ⟨rfl, keeps _ _ silent, [.completes], rfl, by simp, ?_⟩
    simp only [State.load, List.map_cons, List.sum_cons, Frame.work]
    change _ ≤ 22 + _ + _ + _
    omega
  | scanBreak =>
    cases completes
    refine ⟨rfl, by simpa using keeps below [] none, [], by simp, List.not_mem_nil, ?_⟩
    simp only [State.load]
    change _ ≤ 4 + _ + _ + _
    omega
  | other hasCompleted =>
    cases hasCompleted with
    | true =>
      cases completes
      refine ⟨rfl, by simpa using keeps (.completed :: below) [] none, [], by simp,
        List.not_mem_nil, ?_⟩
      simp only [State.load, List.map_cons, List.sum_cons, Frame.work]
      change _ ≤ 4 + _ + _ + _
      omega
    | false =>
      cases completes
      refine ⟨rfl, by simpa using keeps below [] none, [], by simp, List.not_mem_nil, ?_⟩
      simp only [State.load]
      change _ ≤ 4 + _ + _ + _
      omega

end Notes

section Spending

variable {balancing : SearchTree.Balancing Chain} {s next : State} {below : List Frame}

/-- The items of a queue that another was added to, where that is no dump of a chain. -/
theorem queued_before {t : State} {item : Item} {below : List Frame}
    (items : t.queue.items = s.queue.items) (plain : ∀ ch, item ≠ .scanChain ch) :
    ∀ qi ∈ (queueSchedule item t below).queue.items, ∀ ch, qi.data = .scanChain ch →
      (∃ qi ∈ s.queue.items, qi.data = .scanChain ch) ∨ s.scan.nextChain = some ch := by
  intro qi inside ch data
  rcases queueSchedule_queued inside with old | new
  · exact .inl ⟨qi, items ▸ old, data⟩
  · exact absurd (new.symm.trans data) (plain ch)

/-- `SCAN_RUN_HELPERS`. -/
theorem runHelpers_spends (stack : s.stack = .advanceScan :: below)
    (state : s.scan.state = .runHelpers) (ran : runHelpers s below = .ok next) :
    Spends s next := by
  have before := State.load_cons stack
  rw [state] at before
  rw [runHelpers] at ran
  split at ran
  · cases ran
  · next helper _ =>
    cases ran
    refine .quiet rfl rfl (queued_before rfl fun ch same => by cases same)
      (fun ch here => .inl here) ?_
    have after := queueSchedule_load (.scanHelper helper) s (.afterHelper :: below)
    rw [List.map_cons, List.sum_cons, state] at after
    simp only [Frame.work, ScanState.work] at before after
    omega
  · cases ran
    refine .quiet rfl rfl (fun qi inside ch data => .inl ⟨qi, inside, data⟩)
      (fun ch here => .inl here) ?_
    rw [before]
    simp only [State.load, List.map_cons, List.sum_cons, Frame.work, ScanState.work]
    omega

/-- `advance_scan` pays for what it schedules. -/
theorem advanceScan_spends (stack : s.stack = .advanceScan :: below)
    (advances : advanceScan s below = .ok next) : Spends s next := by
  have before := State.load_cons stack
  rw [advanceScan] at advances
  split at advances
  · next state =>
    obtain ⟨queue, initialised, advances⟩ := bind_returned advances
    obtain ⟨_, -, initialised⟩ := bind_returned initialised
    cases initialised
    obtain ⟨tree, noted, events, trace, quiet, less⟩ := runHelpers_spends (s := { s with
      queue := { conn := some 0 }, scan := { s.scan with state := .runHelpers } }) stack rfl advances
    refine ⟨tree, fun old => noted ⟨old.dumped, fun qi inside => ?_, old.pointed⟩, events, trace,
      quiet, ?_⟩
    · cases inside
    · have fewer : State.load { s with
          queue := { conn := some 0 }, scan := { s.scan with state := .runHelpers } } ≤ s.load := by
        simp only [State.load, state, ScanState.work, List.map_nil, List.sum_nil]
        omega
      omega
  · next state => exact runHelpers_spends stack state advances
  · next state =>
    cases advances
    refine .quiet rfl rfl (queued_before rfl fun ch same => by cases same)
      (fun ch here => .inl here) ?_
    have after := queueSchedule_load .scanChains
      { s with scan := { s.scan with state := .dumpEachChainInit } } below
    refine Nat.lt_of_le_of_lt after ?_
    rw [before, state]
    simp only [Frame.work, ScanState.work]
    omega
  · next state =>
    cases advances
    refine ⟨rfl, fun noted => ⟨fun ch chainNo dumped => ?_, noted.queued, fun ch here => ?_⟩,
      [.finds s.chainTree.toList], rfl, by simp, ?_⟩
    · rcases List.mem_append.mp dumped with old | new
      · exact noted.dumped ch chainNo old
      · cases List.mem_singleton.mp new
    · exact List.mem_of_head? here
    · have three : ScanState.work (if s.chainTree.toList.head? = none then .runHelpers
          else .dumpEachChain) = 3 := by split <;> rfl
      have four : ScanState.dumpEachChainInit.work = 4 := rfl
      rw [before, state, four]
      simp only [State.load, List.map_cons, List.sum_cons, Frame.work, three]
      omega
  · next state =>
    split at advances
    · cases advances
    · next ch pointed =>
      cases advances
      refine .quiet rfl rfl (fun qi inside other data => ?_) (fun ch here => .inl here) ?_
      · rcases queueSchedule_queued inside with old | new
        · exact .inl ⟨qi, old, data⟩
        · cases new.symm.trans data
          exact .inr pointed
      · have after := queueSchedule_load (.scanChain ch)
          { s with scan := { s.scan with qChainNo := ch.chainNo } } (.afterChain :: below)
        rw [List.map_cons, List.sum_cons] at after
        refine Nat.lt_of_le_of_lt after ?_
        rw [before]
        simp only [Frame.work]
        omega
  · next state =>
    cases advances
    refine ⟨rfl, fun noted => ⟨fun ch chainNo dumped => ?_, noted.queued, noted.pointed⟩,
      [.removesPin], rfl, by simp, ?_⟩
    · rcases List.mem_append.mp dumped with old | new
      · exact noted.dumped ch chainNo old
      · cases List.mem_singleton.mp new
    · have one : [Event.removesPin].countP Event.works = 1 := rfl
      rw [before, one]
      simp only [State.load, List.map_cons, List.sum_cons, Frame.work]
      omega
  · next state =>
    split at advances
    · cases advances
      refine .quiet rfl rfl (queued_before rfl fun ch same => by cases same)
        (fun ch here => .inl here) ?_
      have after := queueSchedule_load .scanBreak s (.afterBreak :: below)
      rw [List.map_cons, List.sum_cons] at after
      simp only [Frame.work] at before after
      omega
    · cases advances
      refine .quiet rfl rfl (fun qi inside ch data => .inl ⟨qi, inside, data⟩)
        (fun ch here => .inl here) ?_
      rw [before]
      simp only [State.load, List.map_cons, List.sum_cons, Frame.work]
      omega

/-- An activation that returns takes its work off. -/
theorem spends_pop {frame : Frame} (stack : s.stack = frame :: below) :
    Spends s { s with stack := below } := by
  refine .quiet rfl rfl (fun qi inside ch data => .inl ⟨qi, inside, data⟩)
    (fun ch here => .inl here) ?_
  rw [State.load_cons stack]
  have positive : 0 < frame.work := by
    cases frame with
    | execute item sent => cases sent <;> exact Nat.succ_pos _
    | _ => decide
  simp only [State.load]
  omega

/-- The execution of an item is paid for, or observed. -/
theorem queueProcess_spends {item : Item} {queue : Queue Item}
    (stack : s.stack = .processLoop :: below)
    (processed : s.queue.queueProcess = .ok (item, queue)) :
    Spends s { s with
      queue, stack := .execute item false :: .processed :: below
      trace := s.trace ++ executes s.scan item } := by
  obtain ⟨rest, items, rfl⟩ := Queue.queueProcess_ok processed
  have first : (⟨item, .new⟩ : QueueItem Item) ∈ s.queue.items := by
    rw [items]
    exact List.mem_cons_self
  have before := State.load_cons stack
  rw [items, List.map_cons, List.sum_cons] at before
  have fresh : itemWork ⟨item, .new⟩ = 12 := rfl
  refine ⟨rfl, fun noted => ⟨fun ch chainNo dumped => ?_, fun qi inside ch data => ?_,
    noted.pointed⟩, executes s.scan item, rfl, ?_, ?_⟩
  · rcases List.mem_append.mp dumped with old | new
    · exact noted.dumped ch chainNo old
    · cases item with
      | scanChain =>
        cases List.mem_singleton.mp new
        exact noted.queued _ first ch rfl
      | scanHelper | scanChains => cases List.mem_singleton.mp new
      | scanBreak | other => cases new
  · rcases List.mem_cons.mp inside with rfl | old
    · exact noted.queued _ first ch data
    · exact noted.queued qi (by rw [items]; exact List.mem_cons_of_mem _ old) ch data
  · cases item <;> simp [executes]
  · rw [before, fresh]
    simp only [State.load, List.map_cons, List.sum_cons, Frame.work]
    cases item with
    | scanHelper | scanChains | scanChain =>
      change 22 + _ + _ + _ < _ + 18 * 1
      omega
    | scanBreak | other =>
      change 4 + _ + _ + _ < _ + 18 * 0
      omega

/-- A step of the queue or of the scan. -/
theorem advance_spends (own : ¬ clientRuns s) (advances : advance s = .ok next) :
    Spends s next := by
  rw [advance] at advances
  cases stack : s.stack with
  | nil => exact absurd (by rw [clientRuns, stack]; trivial) own
  | cons frame below =>
    have before := State.load_cons stack
    rw [stack] at advances
    cases frame with
    | processLoop =>
      dsimp only at advances
      split at advances
      · obtain ⟨⟨item, queue⟩, processed, advances⟩ := bind_returned advances
        cases advances
        exact queueProcess_spends stack processed
      · cases advances
        exact spends_pop stack
    | processed =>
      dsimp only at advances
      split at advances
      · cases advances
        exact spends_pop stack
      · obtain ⟨tree, noted, events, trace, quiet, less⟩ := handleCompleted_spends advances
        refine ⟨tree, noted, events, trace, quiet, ?_⟩
        rw [List.map_cons, List.sum_cons] at less
        simp only [Frame.work] at before less
        omega
    | isComplete =>
      dsimp only at advances
      split at advances
      · cases advances
        refine .quiet rfl rfl (fun qi inside ch data => .inl ⟨qi, inside, data⟩)
          (fun ch here => .inl here) ?_
        rw [before]
        simp only [State.load, List.map_cons, List.sum_cons, Frame.work]
        omega
      · cases advances
        exact spends_pop stack
    | advanceScan => exact advanceScan_spends stack advances
    | afterHelper =>
      cases advances
      refine .quiet rfl rfl (fun qi inside ch data => .inl ⟨qi, inside, data⟩)
        (fun ch here => .inl here) ?_
      rw [before]
      simp only [State.load, Frame.work]
      omega
    | afterChain =>
      dsimp only at advances
      split at advances
      · cases advances
      · next ch pointed =>
        cases advances
        refine .quiet rfl rfl (fun qi inside ch data => .inl ⟨qi, inside, data⟩)
          (fun other here => .inr (SearchTree.mem_of_next here)) ?_
        rw [before]
        simp only [State.load, Frame.work]
        split
        · simp only [ScanState.work]
          omega
        · omega
    | afterBreak =>
      cases advances
      refine .quiet rfl rfl (fun qi inside ch data => .inl ⟨qi, inside, data⟩)
        (fun ch here => .inl here) ?_
      rw [before]
      simp only [State.load, Frame.work]
      omega
    | execute | completed | removePin => exact absurd (by rw [clientRuns, stack]; trivial) own

/-- So does the return of a callback. -/
theorem ret_spends (inside : s.stack ≠ []) : Spends s (ret s) := by
  cases stack : s.stack with
  | nil => exact absurd stack inside
  | cons frame below =>
    have before := State.load_cons stack
    have most : ∀ state : ScanState, state.work ≤ 4 := by
      intro state
      cases state <;> decide
    rw [ret, stack]
    split
    · next sent below same =>
      cases same
      refine .quiet rfl rfl (fun qi inside ch data => .inl ⟨qi, inside, data⟩)
        (fun ch here => .inl here) ?_
      rw [before]
      simp only [State.load, ScanState.work]
      cases sent <;> simp only [Frame.work] <;> omega
    · next below same =>
      cases same
      refine .quiet rfl rfl (fun qi inside ch data => .inl ⟨qi, inside, data⟩)
        (fun ch here => .inl here) ?_
      rw [before]
      simp only [State.load, List.map_cons, List.sum_cons, Frame.work, ScanState.work]
      omega
    · exact spends_pop stack

/-- Every step on such an input is paid for, or observed. -/
theorem step_spends {input : Input} (enabled : Enabled s input) (own : input.Own)
    (stepped : step balancing s input = .ok next) : Spends s next := by
  cases input with
  | advance => exact advance_spends enabled stepped
  | send =>
    obtain ⟨item, below, stack⟩ := enabled
    have before := State.load_cons stack
    rw [Scanning.step, send, stack] at stepped
    obtain ⟨c, -, stepped⟩ := bind_returned stepped
    obtain ⟨queue, marked, stepped⟩ := bind_returned stepped
    obtain ⟨_, -, marked⟩ := bind_returned marked
    cases marked
    cases stepped
    refine .quiet rfl rfl (fun qi inside ch data => .inl ⟨qi, inside, data⟩)
      (fun ch here => .inl here) ?_
    rw [before]
    simp only [State.load, List.map_cons, List.sum_cons, Frame.work]
    omega
  | «return» =>
    cases stepped
    exact ret_spends enabled.2
  | report errno =>
    obtain ⟨tree, noted, events, trace, quiet, less⟩ := handleCompleted_spends stepped
    refine ⟨tree, fun old => noted ⟨old.dumped, old.queued, old.pointed⟩, events, trace, quiet, ?_⟩
    have empty := enabled.1
    simp only [State.load, empty, List.map_cons, List.map_nil, List.sum_cons, List.sum_nil,
      Frame.work] at less ⊢
    omega
  | schedule | timeout | gotChain | findAvailable => cases own

end Spending

section Budget

/-- The chains that are dumped in some events. -/
def dumpedIn (events : List Event) : List Chain := events.filterMap Event.dumped?

/-- What is executed is the dump of a chain, or one of the plain events. -/
theorem countP_works (events : List Event) :
    events.countP Event.works = events.countP Event.plain + (dumpedIn events).length := by
  induction events with
  | nil => rfl
  | cons e events ih =>
    rw [List.countP_cons, List.countP_cons, ih]
    cases e with
    | dumps ch chainNo =>
      change _ + 1 = _ + 0 + ((dumpedIn events).length + 1)
      omega
    | runs | dumpsChains | removesPin =>
      change _ + 1 = _ + 1 + (dumpedIn events).length
      omega
    | starts | finds | completes => rfl

/-- The dumps of chains dump those chains, and nothing else is executed. -/
theorem dumps_works (chains : List Chain) :
    dumpedIn (dumps chains) = chains ∧ (dumps chains).countP Event.plain = 0 := by
  induction chains with
  | nil => exact ⟨rfl, rfl⟩
  | cons ch chains ih => exact ⟨congrArg (ch :: ·) ih.1, ih.2⟩

/-- What is executed in a round. -/
theorem history_works (r : Round) :
    dumpedIn r.history = r.dumped ∧ r.history.countP Event.plain = 8 := by
  obtain ⟨chains, silent⟩ := dumps_works r.dumped
  obtain ⟨before, after, parts, first, last, plain⟩ : ∃ before after,
      r.history = before ++ (dumps r.dumped ++ after) ∧ dumpedIn before = [] ∧
      dumpedIn after = [] ∧ before.countP Event.plain + after.countP Event.plain = 8 :=
    ⟨.starts :: ran (helpers.take 1) ++ [.dumpsChains, .completes, .finds r.found],
      ran (helpers.drop 1) ++ [.removesPin], by simp [Round.history], rfl, rfl, rfl⟩
  unfold dumpedIn at chains first last ⊢
  constructor
  · rw [parts, List.filterMap_append, List.filterMap_append, first, chains, last,
      List.append_nil, List.nil_append]
  · rw [parts, List.countP_append, List.countP_append, silent, Nat.zero_add, plain]

variable {nodes : List Chain}

/-- The beginning of a round executes no more than the round. -/
theorem Round.Complete.works {r : Round} (complete : r.Complete) {past : List Event}
    (start : past <+: r.history)
    (inside : ∀ ch chainNo, .dumps ch chainNo ∈ past → ch ∈ nodes) :
    past.countP Event.works ≤ past.count .starts * (8 + nodes.length) := by
  cases past with
  | nil => exact Nat.zero_le _
  | cons e past =>
    obtain ⟨chains, plain⟩ := history_works r
    have first : e = .starts := by
      obtain ⟨rest, same⟩ := start
      exact (List.cons.inj same).1
    subst first
    have few : (Event.starts :: past).countP Event.plain ≤ 8 :=
      plain ▸ start.sublist.countP_le
    have once : (dumpedIn (.starts :: past)).Nodup := by
      refine List.Nodup.sublist (start.sublist.filterMap _) ?_
      change (dumpedIn r.history).Nodup
      rw [chains]
      exact complete.once
    have known : dumpedIn (.starts :: past) ⊆ nodes := by
      intro ch member
      obtain ⟨e, here, dumped⟩ := List.mem_filterMap.mp member
      cases e with
      | dumps other chainNo =>
        cases dumped
        exact inside ch chainNo here
      | _ => cases dumped
    have bounded := (List.subperm_of_subset once known).length_le
    rw [countP_works, List.count_cons_self]
    have one : 8 + nodes.length ≤ (past.count .starts + 1) * (8 + nodes.length) :=
      Nat.le_mul_of_pos_left _ (Nat.succ_pos _)
    omega

/-- Whole rounds, and the beginning of one more. -/
theorem InRounds.works {trace : List Event} (rounds : InRounds trace)
    (inside : ∀ ch chainNo, .dumps ch chainNo ∈ trace → ch ∈ nodes) :
    trace.countP Event.works ≤ trace.count .starts * (8 + nodes.length) := by
  obtain ⟨rounds, r, past, rfl, whole, complete, start⟩ := rounds
  induction rounds with
  | nil => exact complete.works start inside
  | cons first rounds ih =>
    rw [List.flatMap_cons, List.append_assoc] at inside ⊢
    rw [List.countP_append, List.count_append, Nat.add_mul]
    obtain ⟨here, whole⟩ := List.forall_mem_cons.mp whole
    have now := here.works (List.prefix_refl _)
      fun ch chainNo member => inside ch chainNo (List.mem_append_left _ member)
    have later := ih (fun ch chainNo member =>
      inside ch chainNo (List.mem_append_right _ member)) whole
    exact Nat.add_le_add now later

end Budget

section Progress

variable {balancing : SearchTree.Balancing Chain} {condition : State → Prop} {s next : State}

/-- A growing tree keeps its nodes. -/
theorem Grows.noted (grows : Grows s next) (noted : Noted s) : Noted next := by
  cases grows with
  | same same =>
    rw [same]
    exact noted
  | @more ch before after node old new others =>
    have kept : ∀ other ∈ s.chainTree.toList, other ∈ next.chainTree.toList := by
      intro other inside
      rw [old, List.mem_append] at inside
      rw [new, List.mem_append, List.mem_cons]
      exact inside.imp_right .inr
    have queue : next.queue = s.queue ∧ next.scan = s.scan ∧ next.trace = s.trace := by
      rw [others]
      exact ⟨rfl, rfl, rfl⟩
    obtain ⟨queue, scan, trace⟩ := queue
    refine ⟨fun ch chainNo dumped => ?_, fun qi inside ch data => ?_, fun ch here => ?_⟩
    · exact kept ch (noted.dumped ch chainNo (trace ▸ dumped))
    · exact kept ch (noted.queued qi (queue ▸ inside) ch data)
    · exact kept ch (noted.pointed ch (scan ▸ here))

/-- Whatever a run does, the chains that it dumps are in the tree. -/
theorem reachable_noted (reached : Reachable balancing condition s) : Noted s := by
  induction reached with
  | init =>
    refine ⟨fun ch chainNo dumped => ?_, fun qi inside => ?_, fun ch here => ?_⟩
    · cases List.mem_singleton.mp dumped
    · cases inside
    · cases here
  | @step s next earlier input enabled _ stepped noted =>
    cases input with
    | advance | send | «return» | report =>
      exact (step_spends enabled trivial stepped).noted noted
    | schedule hasCompleted =>
      cases stepped
      refine ⟨noted.dumped, fun qi inside ch data => ?_, noted.pointed⟩
      rcases queueSchedule_queued inside with old | new
      · exact noted.queued qi old ch data
      · cases new.symm.trans data
    | timeout =>
      obtain ⟨_, -, stepped⟩ := bind_returned stepped
      cases stepped
      refine ⟨fun ch chainNo dumped => ?_, noted.queued, noted.pointed⟩
      rcases List.mem_append.mp dumped with old | new
      · exact noted.dumped ch chainNo old
      · cases List.mem_singleton.mp new
    | gotChain chainNo => exact (filterGotChain_grows stepped).noted noted
    | findAvailable minChainNo =>
      obtain ⟨⟨ret, result⟩, done, rest⟩ := bind_returned stepped
      cases rest
      exact (filterFindAvailableChainNo_grows done).noted noted

/-- What is observed of a run without early calls is in rounds. -/
theorem reachable_inRounds (reached : Reachable balancing (fun s => ¬ Reenters s) s) :
    InRounds s.trace := by
  rcases reachable_inv reached with ⟨exitAfterFirstSync, rfl⟩ | inv
  · exact ⟨[], _, [.starts], rfl, fun r member => (nomatch member), complete_empty, by decide⟩
  · obtain ⟨rounds, whole, token⟩ := inv.token
    exact token.inRounds whole

/-- A step leads on in a run without early calls. -/
theorem Step.reachable (step : Step balancing s next)
    (reached : Reachable balancing (fun s => ¬ Reenters s) s) :
    Reachable balancing (fun s => ¬ Reenters s) next := by
  obtain ⟨input, enabled, -, calm, stepped⟩ := step
  exact reached.step input enabled calm stepped

/-- Every step takes work off. -/
theorem Step.work (step : Step balancing s next)
    (reached : Reachable balancing (fun s => ¬ Reenters s) s) : next.work < s.work := by
  have after := step.reachable reached
  have bounded := (reachable_inRounds after).works (reachable_noted after).dumped
  obtain ⟨input, enabled, own, -, stepped⟩ := step
  obtain ⟨tree, -, events, trace, quiet, less⟩ := step_spends enabled own stepped
  have same : next.budget = s.budget := by
    rw [State.budget, State.budget, tree, trace, List.count_append,
      List.count_eq_zero_of_not_mem quiet, Nat.add_zero]
  have within : next.trace.countP Event.works ≤ next.budget := bounded
  rw [same] at within
  rw [State.work, State.work, same]
  rw [trace, List.countP_append] at within ⊢
  omega

/-- There are at most as many steps as there is work. -/
theorem Steps.bounded {n : Nat} (steps : Steps balancing n s next)
    (reached : Reachable balancing (fun s => ¬ Reenters s) s) :
    n + next.work ≤ s.work ∧ Reachable balancing (fun s => ¬ Reenters s) next := by
  induction steps with
  | none s => exact ⟨Nat.le_of_eq (Nat.zero_add _), reached⟩
  | more earlier step ih =>
    obtain ⟨before, reached⟩ := ih reached
    have less := step.work reached
    exact ⟨by omega, step.reachable reached⟩

/-- Where there is no such step, the event loop waits for no completion. -/
theorem stuck_waits (reached : Reachable balancing (fun s => ¬ Reenters s) s)
    (stuck : ∀ next, ¬ Step balancing s next) (calm : ¬ Reenters s) :
    s.stack = [] ∧ s.outstanding = 0 := by
  rcases reachable_inv reached with ⟨exitAfterFirstSync, rfl⟩ | inv
  · exact absurd ⟨.advance, id, trivial, calm, rfl⟩ (stuck _)
  · have client : clientRuns s := by
      by_contra own
      obtain ⟨next, advances, -⟩ := advance_ok inv own calm
      exact stuck next ⟨.advance, own, trivial, calm, advances⟩
    have empty : s.stack = [] := by
      by_contra frames
      exact stuck (ret s) ⟨.return, ⟨client, frames⟩, trivial, calm, rfl⟩
    refine ⟨empty, ?_⟩
    by_contra waits
    have some := Nat.pos_of_ne_zero waits
    obtain ⟨next, completes, -⟩ := report_inv inv empty some
    exact stuck next ⟨.report 0, ⟨empty, some⟩, trivial, calm, completes⟩

end Progress

section Runs

variable {s : State}

/-- Where no step calls `advance_scan` early, every round that starts runs the six helpers once and
in order, dumps every chain it found once and removes the pins last; `advance_scan` finds a chain
where it needs one, and in the event loop the round goes on. Until somebody else schedules an item,
a chain is reported or the timer expires, a bounded number of steps is taken, and they end with
every round over and the timer running. -/
theorem scan_rounds_complete (balancing : SearchTree.Balancing Chain) {s : State}
    (reached : Reachable balancing (fun s => ¬ Reenters s) s) :
    InRounds s.trace ∧ (s.stack = [] → Proceeds s) ∧
      (¬ Reenters s → Enabled s .advance → ∃ next, step balancing s .advance = .ok next) ∧
      ∀ n next, Steps balancing n s next → n ≤ s.work ∧
        ((∀ last, ¬ Step balancing next last) → Reenters next ∨
          next.stack = [] ∧ next.timerActive = true ∧ ∃ rounds : List Round,
            next.trace = rounds.flatMap Round.history ∧ ∀ r ∈ rounds, r.Complete) := by
  have proceeds : ∀ {s : State}, Reachable balancing (fun s => ¬ Reenters s) s →
      s.stack = [] → Proceeds s := by
    intro s reached loop
    rcases reachable_inv reached with ⟨exitAfterFirstSync, rfl⟩ | inv
    · cases loop
    · exact inv.proceeds loop
  refine ⟨reachable_inRounds reached, proceeds reached, fun calm goes => ?_,
    fun n next steps => ?_⟩
  · rcases reachable_inv reached with ⟨exitAfterFirstSync, rfl⟩ | inv
    · exact ⟨_, rfl⟩
    · obtain ⟨next, step, -⟩ := advance_ok inv goes calm
      exact ⟨next, step⟩
  · obtain ⟨bounded, reached⟩ := steps.bounded reached
    refine ⟨by omega, fun stuck => ?_⟩
    by_cases early : Reenters next
    · exact .inl early
    · obtain ⟨loop, none⟩ := stuck_waits reached stuck early
      rcases proceeds reached loop with resting | ⟨waits, -⟩
      · exact .inr ⟨loop, resting⟩
      · omega

instance : DecidablePred clientRuns
  | { stack := [], .. } | { stack := .execute _ _ :: _, .. } | { stack := .completed :: _, .. }
  | { stack := .removePin :: _, .. } => isTrue trivial
  | { stack := .processLoop :: _, .. } | { stack := .processed :: _, .. }
  | { stack := .isComplete :: _, .. } | { stack := .advanceScan :: _, .. }
  | { stack := .afterHelper :: _, .. } | { stack := .afterChain :: _, .. }
  | { stack := .afterBreak :: _, .. } => isFalse id

/-- The steps on inputs that are those of a scan alone, with a chain that is reported. -/
def allowed (s : State) : Input → Bool
  | .advance => ! decide (clientRuns s)
  | .send => match s.stack with
    | .execute _ false :: _ => true
    | _ => false
  | .return => decide (clientRuns s) && ! s.stack.isEmpty
  | .report _ => s.stack.isEmpty && decide (0 < s.outstanding)
  | .gotChain _ => s.stack.isEmpty
  | .schedule _ | .timeout | .findAvailable _ => false

/-- No activation that is owed an assignment is below `advance_scan`. -/
def settledBelow (s : State) : Bool :=
  match s.stack with
  | .advanceScan :: below => ! below.contains .afterHelper && ! below.contains .afterChain
  | _ => true

theorem enabled_of_allowed {input : Input} (permitted : allowed s input = true) :
    Enabled s input := by
  cases input with
  | advance => simpa [allowed, Enabled] using permitted
  | send =>
    rw [allowed] at permitted
    split at permitted
    · next item below stack => exact ⟨item, below, stack⟩
    · cases permitted
  | «return» => simpa [allowed, Enabled] using permitted
  | report errno => simpa [allowed, Enabled] using permitted
  | gotChain chainNo =>
    have empty : s.stack = [] := by simpa [allowed] using permitted
    rw [Enabled, otherRuns, empty]
    trivial
  | schedule | timeout | findAvailable => cases permitted

theorem calm_of_settledBelow (settled : settledBelow s = true) : ¬ Reenters s := by
  rintro ⟨below, stack, owed⟩
  rw [settledBelow, stack] at settled
  simp only [Bool.and_eq_true, Bool.not_eq_true', List.contains_eq_mem, decide_eq_false_iff_not]
    at settled
  rcases owed with ⟨-, helper⟩ | ⟨-, chain⟩
  · exact settled.1 helper
  · exact settled.2 chain

/-- The state after some inputs, if every step is allowed and calm. -/
def play (balancing : SearchTree.Balancing Chain) : List Input → State → Option State
  | [], s => some s
  | input :: rest, s =>
    if allowed s input && settledBelow s then
      match step balancing s input with
      | .ok next => play balancing rest next
      | .error _ => none
    else none

theorem play_reachable {inputs : List Input}
    (reached : Reachable balancing (fun s => ¬ Reenters s) s)
    (played : play balancing inputs s = some next) :
    Reachable balancing (fun s => ¬ Reenters s) next := by
  induction inputs generalizing s with
  | nil =>
    cases played
    exact reached
  | cons input rest ih =>
    rw [play] at played
    split at played
    · next may =>
      obtain ⟨permitted, settled⟩ := Bool.and_eq_true_iff.mp may
      split at played
      · next stepped => exact ih (reached.step input (enabled_of_allowed permitted)
          (calm_of_settledBelow settled) stepped) played
      · cases played
    · cases played

/-- A request of the scan is executed, sent and answered; `owed` activations return before. -/
def request (owed : Nat) : List Input :=
  [.advance, .advance, .send, .return] ++ List.replicate (owed + 1) .advance ++ [.report 0]

/-- A whole round with one chain, whose requests are all sent and answered. From the start on it
takes at most 166 steps of its own, as long as no chain is known. -/
theorem scan_rounds_complete_whole :
    (∃ s : State, s.trace = (Round.mk [⟨0, 5⟩] [⟨0, 5⟩]).history ∧ InRounds s.trace ∧ Proceeds s) ∧
      ∀ n next, Steps .plain n { stack := [.advanceScan], trace := [.starts] } next → n ≤ 166 := by
  obtain ⟨s, played, trace, loop⟩ : ∃ s, play .plain
      ([.advance, .advance, .send, .return, .advance, .advance, .gotChain 5, .report 0] ++
        request 1 ++ .advance :: request 2 ++ request 2 ++ request 2 ++ request 2 ++ request 2 ++
        request 2 ++ [.advance, .advance, .return, .advance, .advance, .advance])
      { stack := [.advanceScan], trace := [.starts] } = some s ∧
      s.trace = (Round.mk [⟨0, 5⟩] [⟨0, 5⟩]).history ∧ s.stack = [] := ⟨_, rfl, rfl, rfl⟩
  have all := scan_rounds_complete .plain (play_reachable (.init false) played)
  refine ⟨⟨s, trace, all.1, all.2.1 loop⟩, fun n next steps => ?_⟩
  exact ((scan_rounds_complete .plain (.init false)).2.2.2 n next steps).1

/-- The first helper and the dump of the chains are not sent and complete inside
`queue_schedule`. No chain is found, and `advance_scan` runs the first helper once more, since the
outer activation has not moved on from it. -/
theorem scan_runs_helper_twice :
    ∃ s, Reachable .plain (fun _ => True) s ∧ ¬ InRounds s.trace := by
  have r0 : Reachable .plain (fun _ => True) { stack := [.advanceScan], trace := [.starts] } :=
    .init false
  have r1 := r0.step .advance id trivial rfl
  have r2 := r1.step .advance id trivial rfl
  have r3 := r2.step .return ⟨trivial, by simp⟩ trivial rfl
  have r4 := r3.step .advance id trivial rfl
  have r5 := r4.step .advance id trivial rfl
  have r6 := r5.step .advance id trivial rfl
  have r7 := r6.step .return ⟨trivial, by simp⟩ trivial rfl
  have r8 := r7.step .advance id trivial rfl
  have r9 := r8.step .advance id trivial rfl
  have r10 := r9.step .advance id trivial rfl
  have r11 := r10.step .advance id trivial rfl
  obtain ⟨s, reached, again⟩ : ∃ s, Reachable .plain (fun _ => True) s ∧
      s.trace = [.starts, .runs .scanFilters, .completes, .dumpsChains, .completes, .finds [],
        .runs .scanFilters] := ⟨_, r11, rfl⟩
  refine ⟨s, reached, ?_⟩
  rintro ⟨rounds, r, past, trace, _, _, start⟩
  rw [again] at trace
  cases rounds with
  | cons first rest =>
    have ends : Event.removesPin ∈ (first :: rest).flatMap Round.history ++ past := by
      simp [Round.history]
    rw [← trace] at ends
    simp at ends
  | nil =>
    rw [List.flatMap_nil, List.nil_append] at trace
    rw [← trace] at start
    obtain ⟨found, dumped⟩ := r
    cases dumped with
    | nil => simp [Round.history, ran, helpers, dumps] at start
    | cons ch rest => simp [Round.history, ran, helpers, dumps] at start

end Runs

end FlowerRoute.Scanning
