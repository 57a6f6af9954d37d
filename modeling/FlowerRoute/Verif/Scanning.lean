import FlowerRoute.Model.Scanning

/-!
# Rounds of a scan

What a round does is a sequence of requests, each followed by its completion. The invariant says
where in the round the scan is, and who will call `advance_scan` next: nobody but the completion
of the one request that is queued. The assignments that `advance_scan` makes after
`queue_schedule` are still owed while their activation is on the stack.
-/

namespace FlowerRoute.Scanning

open Outcome

/-- A round: the chains that `SCAN_DUMP_EACH_CHAIN_INIT` found and those that were dumped. -/
structure Round where
  found : List Chain
  dumped : List Chain
  deriving DecidableEq, Repr

/-- The six helpers in their order. -/
def helpers : List Helper :=
  [.scanFilters, .scanLinks, .scanNeigh4, .scanNeigh6, .scanRoute4, .scanRoute6]

/-- What is observed of helpers run to completion one after the other. -/
def ran (run : List Helper) : List Event := run.flatMap fun helper => [.runs helper, .completes]

/-- What is observed of chains dumped one after the other. -/
def dumps (chains : List Chain) : List Event :=
  chains.flatMap fun ch => [.dumps ch ch.chainNo, .completes]

/-- What is observed of a round: its start, its first helper, the dump of the chains, the dump of
each chain, the other helpers, and last the removal of the pins. -/
def Round.history (r : Round) : List Event :=
  .starts :: ran (helpers.take 1) ++ [.dumpsChains, .completes, .finds r.found] ++ dumps r.dumped ++
    ran (helpers.drop 1) ++ [.removesPin]

/-- Every chain that was found was dumped, and none was dumped twice. -/
structure Round.Complete (r : Round) : Prop where
  once : r.dumped.Nodup
  all : ∀ ch ∈ r.found, ch ∈ r.dumped

/-- `advance_scan` is entered while an outer activation of it has not moved on from the helper or
the chain that it has scheduled. -/
def Reenters (s : State) : Prop :=
  ∃ below, s.stack = .advanceScan :: below ∧
    (s.scan.state = .runHelpers ∧ .afterHelper ∈ below ∨
      s.scan.state = .dumpEachChain ∧ .afterChain ∈ below)

/-- Whole rounds, and the beginning of one more. -/
def InRounds (trace : List Event) : Prop :=
  ∃ rounds : List Round, ∃ r : Round, ∃ past : List Event,
    trace = rounds.flatMap Round.history ++ past ∧ (∀ r ∈ rounds, r.Complete) ∧ r.Complete ∧
      past <+: r.history

section Places

/-- Where a round has got to. -/
inductive Place
  /-- The first helper is to be run. -/
  | filters
  /-- The chains are to be dumped. -/
  | chains
  /-- The chains are to be looked up. -/
  | init
  /-- A chain is to be dumped. -/
  | chain (r : Round)
  /-- The helper of this index is to be run, or none is left. -/
  | helper (r : Round) (index : Nat)

/-- What was observed of the round so far. -/
def Place.past : Place → List Event
  | .filters => [.starts]
  | .chains => .starts :: ran (helpers.take 1)
  | .init => .starts :: ran (helpers.take 1) ++ [.dumpsChains, .completes]
  | .chain r => .starts :: ran (helpers.take 1) ++ [.dumpsChains, .completes, .finds r.found] ++
      dumps r.dumped
  | .helper r index => .starts :: ran (helpers.take 1) ++ [.dumpsChains, .completes, .finds r.found] ++
      dumps r.dumped ++ ran ((helpers.drop 1).take (index - 1))

/-- One more chain dumped. -/
def Round.dump (r : Round) (ch : Chain) : Round := { r with dumped := r.dumped ++ [ch] }

@[simp] theorem dumps_append (chains : List Chain) (ch : Chain) :
    dumps (chains ++ [ch]) = dumps chains ++ [.dumps ch ch.chainNo, .completes] := by
  simp [dumps]

/-- One more chain extends what was observed. -/
theorem past_dump (r : Round) (ch : Chain) :
    (Place.chain (r.dump ch)).past = (Place.chain r).past ++ [.dumps ch ch.chainNo, .completes] := by
  simp [Place.past, Round.dump]

/-- After the chains the second helper is next. -/
theorem past_second (r : Round) : (Place.helper r 1).past = (Place.chain r).past := by
  simp [Place.past, ran]

/-- One more helper extends what was observed. -/
theorem past_helper (r : Round) {index : Nat} {helper : Helper} (positive : 1 ≤ index)
    (here : helpers[index]? = some helper) :
    (Place.helper r (index + 1)).past =
      (Place.helper r index).past ++ [.runs helper, .completes] := by
  obtain ⟨before, rfl⟩ : ∃ before, index = before + 1 := ⟨index - 1, by omega⟩
  have taken : (helpers.drop 1).take (before + 1) = (helpers.drop 1).take before ++ [helper] := by
    rw [List.take_add_one, List.getElem?_drop, Nat.add_comm 1 before, here]
    rfl
  simp only [Place.past, Nat.add_sub_cancel, taken]
  simp [ran]

/-- After the last helper the round ends with the removal of the pins. -/
theorem past_last (r : Round) : (Place.helper r 6).past ++ [.removesPin] = r.history := rfl

/-- What is known of a round whose chains are being dumped. -/
structure Round.Sane (r : Round) : Prop where
  found : r.found.Nodup
  dumped : r.dumped.Nodup

/-- The round that results when the chains not yet dumped are. -/
theorem Round.Sane.completes {r : Round} (sane : r.Sane) :
    ∃ rest, (Round.mk r.found (r.dumped ++ rest)).Complete := by
  refine ⟨r.found.filter (· ∉ r.dumped), ?_, fun ch found => ?_⟩
  · apply List.Nodup.append sane.dumped (sane.found.filter _)
    intro ch dumped rest
    simp only [List.mem_filter, decide_eq_true_eq] at rest
    exact rest.2 dumped
  · by_cases dumped : ch ∈ r.dumped
    · exact List.mem_append_left _ dumped
    · exact List.mem_append_right _ (by simp [found, dumped])

/-- A round with no chains is complete. -/
theorem complete_empty : (Round.mk [] []).Complete :=
  ⟨List.nodup_nil, fun _ found => absurd found (List.not_mem_nil)⟩

end Places

section Work

/-- Activations under which no item is being executed. -/
def Frame.quiet : Frame → Bool
  | .execute _ _ | .processed => false
  | _ => true

/-- Activations that look at the queue again before they return. -/
def Frame.resumes : Frame → Bool
  | .processLoop | .isComplete => true
  | _ => false

/-- Every activation on the stack is quiet. -/
def Quiet (stack : List Frame) : Prop := ∀ frame ∈ stack, frame.quiet = true

@[simp] theorem quiet_nil : Quiet [] := fun _ member => nomatch member

theorem Quiet.tail {frame : Frame} {below : List Frame} (quiet : Quiet (frame :: below)) :
    Quiet below := fun other member => quiet other (List.mem_cons_of_mem _ member)

theorem Quiet.push {frame : Frame} {below : List Frame} (quiet : Quiet below)
    (top : frame.quiet = true) : Quiet (frame :: below) := by
  intro other member
  rcases List.mem_cons.mp member with rfl | deeper
  · exact top
  · exact quiet other deeper

/-- What the queue is doing. -/
inductive Work (s : State) : Prop
  /-- No item is being executed; waiting items are picked up by an activation on the stack. -/
  | idle (queue : s.queue.Idle) (quiet : Quiet s.stack) (none : s.outstanding = 0)
      (resumes : s.queue.items ≠ [] → ∃ frame ∈ s.stack, frame.resumes = true)
  /-- An item's `execute` is running, or has just returned to the loop. -/
  | executing {item : Item} {waiting : List (QueueItem Item)} (sent : Bool)
      {below : List Frame} (queue : s.queue.Running item waiting)
      (flag : s.queue.hasSentRequest = sent)
      (stack : s.stack = .execute item sent :: .processed :: below ∨ s.stack = .processed :: below)
      (quiet : Quiet below) (count : s.outstanding = sent.toNat)
  /-- An item has sent its request and waits for the completion. -/
  | awaiting {item : Item} {waiting : List (QueueItem Item)}
      (queue : s.queue.Running item waiting) (quiet : Quiet s.stack) (one : s.outstanding = 1)

variable {s next : State}

/-- A queue that is not busy is idle. -/
theorem Work.of_free (work : Work s) (free : s.queue.isBusy = false) :
    s.queue.Idle ∧ Quiet s.stack ∧ s.outstanding = 0 := by
  cases work with
  | idle queue quiet none _ => exact ⟨queue, quiet, none⟩
  | executing _ queue => rw [queue.1] at free; cases free
  | awaiting queue => rw [queue.1] at free; cases free

/-- Under an activation that is quiet no item is being executed. -/
theorem Work.quiet (work : Work s) {frame : Frame} {below : List Frame}
    (stack : s.stack = frame :: below) (top : frame.quiet = true) : Quiet below := by
  cases work with
  | idle _ quiet =>
    rw [stack] at quiet
    exact quiet.tail
  | executing _ _ _ shape =>
    rcases shape with shape | shape <;> rw [stack] at shape <;> cases shape <;> cases top
  | awaiting _ quiet =>
    rw [stack] at quiet
    exact quiet.tail

/-- In the event loop the queue is empty or waits for a completion. -/
theorem Work.event_loop (work : Work s) (stack : s.stack = []) :
    s.queue.items = [] ∨ s.outstanding = 1 := by
  cases work with
  | idle _ _ _ resumes =>
    by_cases items : s.queue.items = []
    · exact .inl items
    · obtain ⟨frame, member, _⟩ := resumes items
      rw [stack] at member
      cases member
  | executing _ _ _ shape =>
    rcases shape with shape | shape <;> rw [stack] at shape <;> cases shape
  | awaiting _ _ one => exact .inr one

/-- Replacing quiet activations by others that resume no less leaves the queue at its work. -/
theorem Work.restack (work : Work s) (before : Quiet s.stack) (queue : next.queue = s.queue)
    (outstanding : next.outstanding = s.outstanding) (quiet : Quiet next.stack)
    (resumes : (∃ frame ∈ s.stack, frame.resumes = true) →
      ∃ frame ∈ next.stack, frame.resumes = true) : Work next := by
  cases work with
  | idle idle _ none resume =>
    exact .idle (queue ▸ idle) quiet (outstanding ▸ none)
      fun items => resumes (resume (queue ▸ items))
  | executing _ _ _ shape =>
    rcases shape with shape | shape <;> rw [shape] at before
    · cases before _ (List.mem_cons_self)
    · cases before _ (List.mem_cons_self)
  | awaiting running _ one => exact .awaiting (queue ▸ running) quiet (outstanding ▸ one)

/-- An activation that does not resume is replaced by quiet ones. -/
theorem Work.replace (work : Work s) (above : List Frame) {frame : Frame} {below : List Frame}
    (stack : s.stack = frame :: below) (top : frame.quiet = true)
    (resumes : frame.resumes = false) (queue : next.queue = s.queue)
    (outstanding : next.outstanding = s.outstanding) (after : next.stack = above ++ below)
    (quiet : Quiet above) : Work next := by
  have quietBelow := work.quiet stack top
  apply work.restack (stack ▸ quietBelow.push top) queue outstanding
  · rw [after]
    intro other member
    rcases List.mem_append.mp member with new | old
    · exact quiet other new
    · exact quietBelow other old
  · rintro ⟨other, member, again⟩
    rw [stack] at member
    rw [after]
    rcases List.mem_cons.mp member with rfl | old
    · rw [resumes] at again
      cases again
    · exact ⟨other, List.mem_append_right _ old, again⟩

/-- `queue_schedule` while no item is being executed. -/
theorem Work.schedule (work : Work s) {below : List Frame} (before : Quiet s.stack)
    (quiet : Quiet below) (item : Item) : Work (queueSchedule item s below) := by
  cases work with
  | idle idle _ none resume =>
    have stack : (queueSchedule item s below).stack = .processLoop :: below := by
      simp [queueSchedule, idle.1]
    refine .idle (idle.enqueue item) ?_ none fun _ => ⟨.processLoop, ?_, rfl⟩
    · rw [stack]
      exact quiet.push rfl
    · simp [stack]
  | executing _ _ _ shape =>
    rcases shape with shape | shape <;> rw [shape] at before
    · cases before _ (List.mem_cons_self)
    · cases before _ (List.mem_cons_self)
  | awaiting running _ one =>
    have stack : (queueSchedule item s below).stack = below := by
      simp [queueSchedule, running.1]
    exact .awaiting (running.enqueue item) (by rw [stack]; exact quiet) one

end Work

section Tokens

/-- Activations of the scan that are going to set its state. -/
def Frame.scans : Frame → Bool
  | .advanceScan | .removePin | .afterBreak => true
  | _ => false

/-- Items of the scan whose completion calls `advance_scan`. -/
def Item.scans : Item → Bool
  | .scanHelper _ | .scanChains | .scanChain _ => true
  | .scanBreak | .other _ => false

/-- The queued items of the scan. -/
def requests (s : State) : List (QueueItem Item) := s.queue.items.filter (·.data.scans)

/-- The index of the next helper when every activation has moved on. -/
def owedIdx (s : State) : Nat := s.scan.helperIdx + s.stack.count .afterHelper

/-- The activations that have not moved the cursor on. -/
def behind (s : State) : Nat := s.stack.count .afterChain

/-- The cursor is at a chain, and the chains that were found before it are dumped. -/
structure Cursor (s : State) (r : Round) (ch : Chain) : Prop where
  here : s.scan.nextChain = some ch
  sane : r.Sane
  inside : ∀ other ∈ r.found, other ∈ s.chainTree.toList
  split : ∃ before after, s.chainTree.toList = before ++ ch :: after ∧
    (∀ other ∈ r.dumped, other ∈ before) ∧ ∀ other ∈ r.found, other ∈ before → other ∈ r.dumped

/-- The scan's own fields when `advance_scan` is called at a place. -/
inductive Ready (s : State) : Place → Prop
  | filters (state : s.scan.state = .runHelpers) (idx : owedIdx s = 0) (settled : behind s = 0) :
    Ready s .filters
  | chains (state : s.scan.state = .dumpChains) (idx : owedIdx s = 1) (settled : behind s = 0) :
    Ready s .chains
  | init (state : s.scan.state = .dumpEachChainInit) (idx : owedIdx s = 1)
    (settled : behind s = 0) : Ready s .init
  | chain {r : Round} {ch : Chain} (state : s.scan.state = .dumpEachChain) (idx : owedIdx s = 1)
    (settled : behind s = 0) (cursor : Cursor s r ch) : Ready s (.chain r)
  /-- The call is one that an outer activation is not prepared for. -/
  | early {r : Round} (state : s.scan.state = .dumpEachChain) (stale : behind s ≠ 0)
    (sane : r.Sane) : Ready s (.chain r)
  | helper {r : Round} {index : Nat} (state : s.scan.state = .runHelpers)
    (idx : owedIdx s = index) (settled : behind s = 0) (positive : 1 ≤ index)
    (bound : index ≤ 6) (complete : r.Complete) : Ready s (.helper r index)

/-- The scan's own fields after the dump of a chain when the cursor was moved on. -/
inductive Moved (s : State) (r : Round) : Prop
  | more {ch : Chain} (state : s.scan.state = .dumpEachChain) (cursor : Cursor s r ch)
  | last (state : s.scan.state = .runHelpers) (complete : r.Complete)

/-- The scan's own fields while the item of a place is queued or runs, with what is observed
when it runs and the place after it. -/
inductive Flight (s : State) : Place → Item → Event → Place → Prop
  | filters (idx : owedIdx s = 1) (settled : behind s = 0) :
    Flight s .filters (.scanHelper .scanFilters) (.runs .scanFilters) .chains
  | chains (state : s.scan.state = .dumpEachChainInit) (idx : owedIdx s = 1)
    (settled : behind s = 0) : Flight s .chains .scanChains .dumpsChains .init
  | chain {r : Round} {ch : Chain} (number : s.scan.qChainNo = ch.chainNo)
    (idx : owedIdx s = 1)
    (cursor : behind s = 1 ∧ s.scan.state = .dumpEachChain ∧ Cursor s r ch ∨
      behind s = 0 ∧ Moved s (r.dump ch)) (sane : (r.dump ch).Sane) :
    Flight s (.chain r) (.scanChain ch) (.dumps ch ch.chainNo) (.chain (r.dump ch))
  | helper {r : Round} {index : Nat} {helper : Helper} (state : s.scan.state = .runHelpers)
    (idx : owedIdx s = index + 1) (settled : behind s = 0) (positive : 1 ≤ index)
    (here : helpers[index]? = some helper) (complete : r.Complete) :
    Flight s (.helper r index) (.scanHelper helper) (.runs helper) (.helper r (index + 1))

/-- `scan_filters` is being executed and has not returned. -/
def FiltersRun (s : State) : Prop :=
  ∃ sent below, s.stack = .execute (.scanHelper .scanFilters) sent :: below

/-- The scan is between two rounds. -/
structure Between (s : State) : Prop where
  idx : s.scan.helperIdx = 0
  owed : s.stack.count .afterHelper = 0
  settled : behind s = 0

/-- The activations and the queued items of the scan, and what was observed. -/
structure Shows (s : State) (marks : List Frame) (items : List (QueueItem Item))
    (trace : List Event) : Prop where
  marks : s.stack.filter Frame.scans = marks
  items : requests s = items
  trace : s.trace = trace

/-- Who is going to advance the scan, after what was observed of earlier rounds. -/
inductive Token (s : State) (past : List Event) : Prop
  /-- `advance_scan` is called. -/
  | calling {place : Place} {below : List Frame} (top : s.stack = .advanceScan :: below)
      (shows : Shows s [.advanceScan] [] (past ++ place.past)) (timer : s.timerActive = false)
      (ready : Ready s place)
  /-- An item is queued. -/
  | waiting {place after : Place} {item : Item} {event : Event}
      (shows : Shows s [] [⟨item, .new⟩] (past ++ place.past)) (timer : s.timerActive = false)
      (flight : Flight s place item event after)
  /-- An item runs. -/
  | begun {place after : Place} {item : Item} {event : Event}
      (shows : Shows s [] [⟨item, .sent⟩] (past ++ place.past ++ [event]))
      (timer : s.timerActive = false) (flight : Flight s place item event after)
      (returned : place = .filters → ¬ FiltersRun s → s.scan.state = .dumpChains)
  /-- All helpers have completed. -/
  | done {r : Round} {below : List Frame} (top : s.stack = .advanceScan :: below)
      (shows : Shows s [.advanceScan] [] (past ++ (Place.helper r 6).past))
      (timer : s.timerActive = false) (state : s.scan.state = .done) (between : Between s)
      (complete : r.Complete)
  /-- The pins are being removed. -/
  | removing (shows : Shows s [.removePin] [] past) (timer : s.timerActive = false)
      (between : Between s)
  /-- The pins were removed. -/
  | removed {below : List Frame} (top : s.stack = .advanceScan :: below)
      (shows : Shows s [.advanceScan] [] past) (timer : s.timerActive = false)
      (state : s.scan.state = .wait) (between : Between s)
  /-- The timer runs, or is about to. -/
  | resting (shows : Shows s (if s.timerActive then [] else [.afterBreak]) [] past)
      (state : s.scan.state = .wait) (between : Between s)

/-- What a step leaves as it is of the scan's own fields when it is not the scan's. -/
structure SameFields (s next : State) : Prop where
  state : next.scan.state = s.scan.state
  qChainNo : next.scan.qChainNo = s.scan.qChainNo
  cursor : ∀ r ch, Cursor s r ch → Cursor next r ch
  idx : owedIdx next = owedIdx s
  behind : behind next = behind s
  between : Between s → Between next

/-- What a step leaves as it is when it is not the scan's. -/
structure SameScan (s next : State) : Prop extends SameFields s next where
  marks : next.stack.filter Frame.scans = s.stack.filter Frame.scans
  items : requests next = requests s
  timer : next.timerActive = s.timerActive
  trace : next.trace = s.trace
  filters : FiltersRun s → FiltersRun next

variable {s next : State} {earlier : List Event}

theorem Shows.same {marks : List Frame} {items : List (QueueItem Item)} {trace : List Event}
    (shows : Shows s marks items trace) (same : SameScan s next) :
    Shows next marks items trace where
  marks := same.marks.trans shows.marks
  items := same.items.trans shows.items
  trace := same.trace.trans shows.trace

theorem Moved.same {r : Round} (moved : Moved s r) (same : SameFields s next) : Moved next r := by
  cases moved with
  | more state cursor => exact .more (same.state.trans state) (same.cursor _ _ cursor)
  | last state complete => exact .last (same.state.trans state) complete

theorem Flight.same {place after : Place} {item : Item} {event : Event}
    (flight : Flight s place item event after) (same : SameFields s next) :
    Flight next place item event after := by
  cases flight with
  | filters idx settled => exact .filters (same.idx.trans idx) (same.behind.trans settled)
  | chains state idx settled =>
    exact .chains (same.state.trans state) (same.idx.trans idx) (same.behind.trans settled)
  | chain number idx cursor sane =>
    apply Flight.chain (same.qChainNo.trans number) (same.idx.trans idx) _ sane
    rcases cursor with ⟨one, state, cursor⟩ | ⟨none, moved⟩
    · exact .inl ⟨same.behind.trans one, same.state.trans state, same.cursor _ _ cursor⟩
    · exact .inr ⟨same.behind.trans none, moved.same same⟩
  | helper state idx settled positive here complete =>
    exact .helper (same.state.trans state) (same.idx.trans idx) (same.behind.trans settled)
      positive here complete

/-- A step that is not the scan's leaves it where it is, unless `advance_scan` is called. -/
theorem Token.same (token : Token s earlier) (same : SameScan s next)
    (elsewhere : ∀ below, s.stack ≠ .advanceScan :: below) : Token next earlier := by
  cases token with
  | calling top | done top | removed top => exact absurd top (elsewhere _)
  | waiting shows timer flight =>
    exact .waiting (shows.same same) (same.timer.trans timer)
      (flight.same same.toSameFields)
  | begun shows timer flight returned =>
    refine .begun (shows.same same) (same.timer.trans timer)
      (flight.same same.toSameFields) ?_
    intro first stopped
    rw [same.state]
    exact returned first fun runs => stopped (same.filters runs)
  | removing shows timer between =>
    exact .removing (shows.same same) (same.timer.trans timer) (same.between between)
  | resting shows state between =>
    apply Token.resting _ (same.state.trans state) (same.between between)
    rw [same.timer]
    exact shows.same same

/-- The place of a queued item and what is observed of it make up the place after it. -/
theorem Flight.past {place after : Place} {item : Item} {event : Event}
    (flight : Flight s place item event after) :
    after.past = place.past ++ [event, .completes] := by
  cases flight with
  | filters => rfl
  | chains => rfl
  | chain => exact past_dump _ _
  | helper _ _ _ positive here => exact past_helper _ positive here

theorem Flight.scans {place after : Place} {item : Item} {event : Event}
    (flight : Flight s place item event after) : item.scans = true := by
  cases flight <;> rfl

/-- What is observed when the item is executed. -/
theorem Flight.executes {place after : Place} {item : Item} {event : Event}
    (flight : Flight s place item event after) : executes s.scan item = [event] := by
  cases flight with
  | chain number => simp [Scanning.executes, number]
  | filters | chains | helper => rfl

/-- Activations that neither belong to the scan nor are owed an assignment of it. -/
def Frame.neutral : Frame → Bool
  | .advanceScan | .removePin | .afterBreak | .afterHelper | .afterChain => false
  | _ => true

/-- Every activation is neutral. -/
def Neutral (stack : List Frame) : Prop := ∀ frame ∈ stack, frame.neutral = true

/-- No activation is owed an assignment of the scan. -/
def Settled (stack : List Frame) : Prop := .afterHelper ∉ stack ∧ .afterChain ∉ stack

theorem Neutral.settled {above : List Frame} (neutral : Neutral above) : Settled above :=
  ⟨fun member => (nomatch neutral _ member), fun member => (nomatch neutral _ member)⟩

theorem Neutral.marks {above : List Frame} (neutral : Neutral above) :
    above.filter Frame.scans = [] := by
  apply List.filter_eq_nil_iff.mpr
  intro frame member marked
  have plain := neutral frame member
  cases frame <;> simp [Frame.neutral, Frame.scans] at plain marked

/-- A step that replaces settled activations and does nothing else to the scan leaves its
fields. -/
theorem sameFields (above above' : List Frame) {below : List Frame}
    (stack : s.stack = above ++ below) (after : next.stack = above' ++ below)
    (settled : Settled above) (settled' : Settled above') (scan : next.scan = s.scan)
    (tree : next.chainTree = s.chainTree) : SameFields s next := by
  have helpers := List.count_eq_zero.mpr settled.1
  have chains := List.count_eq_zero.mpr settled.2
  have helpers' := List.count_eq_zero.mpr settled'.1
  have chains' := List.count_eq_zero.mpr settled'.2
  have countHelpers : next.stack.count .afterHelper = s.stack.count .afterHelper := by
    rw [stack, after, List.count_append, List.count_append, helpers, helpers']
  have countChains : behind next = behind s := by
    unfold behind
    rw [stack, after, List.count_append, List.count_append, chains, chains']
  constructor
  case state => rw [scan]
  case qChainNo => rw [scan]
  case cursor =>
    intro r ch cursor
    constructor
    · rw [scan]
      exact cursor.here
    · exact cursor.sane
    · rw [tree]
      exact cursor.inside
    · rw [tree]
      exact cursor.split
  case idx =>
    unfold owedIdx
    rw [scan, countHelpers]
  case behind => exact countChains
  case between =>
    intro between
    exact ⟨scan ▸ between.idx, countHelpers.trans between.owed,
      countChains.trans between.settled⟩

/-- The same for a step that leaves the items of the scan and the trace, too. -/
theorem sameScan (above above' : List Frame) {below : List Frame} (stack : s.stack = above ++ below)
    (after : next.stack = above' ++ below) (neutral : Neutral above) (neutral' : Neutral above')
    (scan : next.scan = s.scan) (tree : next.chainTree = s.chainTree)
    (items : requests next = requests s) (timer : next.timerActive = s.timerActive)
    (trace : next.trace = s.trace) (filters : FiltersRun s → FiltersRun next) :
    SameScan s next where
  toSameFields := sameFields above above' stack after neutral.settled neutral'.settled scan tree
  marks := by
    rw [stack, after, List.filter_append, List.filter_append, neutral.marks, neutral'.marks]
  items := items
  timer := timer
  trace := trace
  filters := filters

end Tokens

section Nodes

/-- The nodes of the tree are distinct and older than the next one. -/
structure Nodes (s : State) : Prop where
  nodup : s.chainTree.toList.Nodup
  older : ∀ ch ∈ s.chainTree.toList, ch.node < s.nextNode

variable {s next : State} {balancing : SearchTree.Balancing Chain} {chainNo : UInt32}

/-- What a chain-tree operation does: nothing, or one new node. -/
inductive Grows (s next : State) : Prop
  | same (same : next = s)
  | more {ch : Chain} {before after : List Chain} (node : ch.node = s.nextNode)
      (old : s.chainTree.toList = before ++ after)
      (new : next.chainTree.toList = before ++ ch :: after)
      (others : next = { s with chainTree := next.chainTree, nextNode := s.nextNode + 1 })

/-- `filter_got_chain` inserts at most one node. -/
theorem filterGotChain_grows (done : filterGotChain balancing chainNo s = .ok next) :
    Grows s next := by
  unfold filterGotChain at done
  obtain ⟨found, _, rest⟩ := bind_returned done
  cases found with
  | some ch =>
    cases rest
    exact .same rfl
  | none =>
    obtain ⟨⟨ret, inserted⟩, insertion, rest⟩ := bind_returned rest
    obtain ⟨_, passed, rest⟩ := bind_returned rest
    have linked := of_require passed
    cases rest
    unfold chainInsert at insertion
    obtain ⟨result, link, rest⟩ := bind_returned insertion
    cases result with
    | none =>
      cases rest
      cases linked
    | some tree =>
      cases rest
      obtain ⟨before, after, old, new⟩ := SearchTree.link_some link
      exact @Grows.more _ _ ⟨s.nextNode, chainNo⟩ _ _ rfl old
        (by rw [balancing.insertColor_toList, new]) rfl

/-- `filter_find_available_chain_no` inserts at most one node. -/
theorem filterFindAvailableChainNo_grows {minChainNo ret : UInt32}
    (done : filterFindAvailableChainNo balancing minChainNo s = .ok (ret, next)) :
    Grows s next := by
  unfold filterFindAvailableChainNo at done
  obtain ⟨reserved, reserve, rest⟩ := bind_returned done
  cases rest
  unfold filterReserveChain at reserve
  obtain ⟨got, grow, rest⟩ := bind_returned reserve
  obtain ⟨_, _, rest⟩ := bind_returned rest
  obtain ⟨_, _, rest⟩ := bind_returned rest
  cases rest
  exact filterGotChain_grows grow

/-- A new node is distinct from the old ones. -/
theorem Grows.nodes (grows : Grows s next) (nodes : Nodes s) : Nodes next := by
  cases grows with
  | same same =>
    rw [same]
    exact nodes
  | @more ch before after node old new others =>
    have fresh : ch ∉ s.chainTree.toList := fun inside =>
      absurd (nodes.older ch inside) (by omega)
    have nodup := nodes.nodup
    have older := nodes.older
    rw [old] at fresh nodup older
    constructor
    · rw [new]
      exact List.nodup_middle.mpr (List.nodup_cons.mpr ⟨fresh, nodup⟩)
    · rw [new, others]
      intro other member
      rw [List.mem_append, List.mem_cons] at member
      show other.node < s.nextNode + 1
      rcases member with left | rfl | right
      · exact Nat.lt_succ_of_lt (older other (List.mem_append_left _ left))
      · omega
      · exact Nat.lt_succ_of_lt (older other (List.mem_append_right _ right))

/-- A cursor stays where it is when the tree grows around it. -/
theorem Grows.cursor (grows : Grows s next) (nodes : Nodes s) {r : Round} {here : Chain}
    (cursor : Cursor s r here) : Cursor next r here := by
  cases grows with
  | same same =>
    rw [same]
    exact cursor
  | @more ch before after node old new others =>
    have scan : next.scan = s.scan := by rw [others]
    have fresh : ch ∉ s.chainTree.toList := fun inside =>
      absurd (nodes.older ch inside) (by omega)
    have unfound : ch ∉ r.found := fun found => fresh (cursor.inside ch found)
    constructor
    · rw [scan]
      exact cursor.here
    · exact cursor.sane
    · intro other found
      have inside := cursor.inside other found
      rw [old, List.mem_append] at inside
      rw [new, List.mem_append, List.mem_cons]
      exact inside.imp_right .inr
    · obtain ⟨pre, post, split, dumped, all⟩ := cursor.split
      rw [old] at split
      rw [new]
      rcases List.append_eq_append_iff.mp split with ⟨middle, rfl, rfl⟩ | ⟨middle, rfl, rest⟩
      · -- The new node is somewhere before the cursor.
        refine ⟨before ++ ch :: middle, post, by simp, fun other member => ?_, ?_⟩
        · rcases List.mem_append.mp (dumped other member) with left | right
          · exact List.mem_append_left _ left
          · exact List.mem_append_right _ (List.mem_cons_of_mem _ right)
        · intro other found member
          rw [List.mem_append, List.mem_cons] at member
          rcases member with left | rfl | right
          · exact all other found (List.mem_append_left _ left)
          · exact absurd found unfound
          · exact all other found (List.mem_append_right _ right)
      · cases middle with
        | nil =>
          -- The new node is right before the cursor.
          rw [List.nil_append] at rest
          refine ⟨pre ++ [ch], post, by simp [← rest], fun other member => ?_, ?_⟩
          · exact List.mem_append_left _ (dumped other member)
          · intro other found member
            rw [List.mem_append, List.mem_singleton] at member
            rcases member with left | rfl
            · exact all other found left
            · exact absurd found unfound
        | cons first middle =>
          cases rest
          exact ⟨pre, middle ++ ch :: after, by simp, dumped, all⟩

/-- A growing tree is all that an operation on it changes. -/
theorem Grows.sameScan (grows : Grows s next) (nodes : Nodes s) : SameScan s next := by
  have cursor : ∀ r ch, Cursor s r ch → Cursor next r ch := fun _ _ => grows.cursor nodes
  cases grows with
  | same same =>
    rw [same]
    exact Scanning.sameScan [] [] rfl rfl (fun _ member => nomatch member)
      (fun _ member => nomatch member) rfl rfl rfl rfl rfl id
  | more _ _ _ others =>
    generalize next.chainTree = tree at others
    subst others
    exact ⟨⟨rfl, rfl, cursor, rfl, rfl, fun b => ⟨b.idx, b.owed, b.settled⟩⟩, rfl, rfl, rfl, rfl,
      id⟩

/-- The queue and the stack are not concerned. -/
theorem Grows.work (grows : Grows s next) (work : Work s) : Work next := by
  cases grows with
  | same same =>
    rw [same]
    exact work
  | more _ _ _ others =>
    generalize next.chainTree = tree at others
    subst others
    cases work with
    | idle queue quiet none resumes => exact .idle queue quiet none resumes
    | executing sent queue flag stack quiet count =>
      exact .executing sent queue flag stack quiet count
    | awaiting queue quiet one => exact .awaiting queue quiet one

end Nodes

section Steps

/-- The invariant of the scan. -/
structure Invariant (s : State) : Prop where
  conn : ∃ c, s.queue.conn = some c
  work : Work s
  nodes : Nodes s
  token : ∃ rounds : List Round, (∀ r ∈ rounds, r.Complete) ∧
    Token s (rounds.flatMap Round.history)

variable {s next : State}

/-- A step that leaves the scan where it is keeps the invariant with the queue's work. -/
theorem Invariant.same (inv : Invariant s) (conn : next.queue.conn = s.queue.conn)
    (work : Work next) (nodes : Nodes next) (same : SameScan s next)
    (elsewhere : ∀ below, s.stack ≠ .advanceScan :: below) : Invariant next where
  conn := by
    rw [conn]
    exact inv.conn
  work := work
  nodes := nodes
  token := by
    obtain ⟨rounds, complete, token⟩ := inv.token
    exact ⟨rounds, complete, token.same same elsewhere⟩

theorem Nodes.same (nodes : Nodes s) (tree : next.chainTree = s.chainTree)
    (fresh : next.nextNode = s.nextNode) : Nodes next := by
  constructor
  · rw [tree]
    exact nodes.nodup
  · rw [tree, fresh]
    exact nodes.older

@[simp] theorem neutral_nil : Neutral [] := fun _ member => nomatch member

theorem Neutral.cons {frame : Frame} {above : List Frame} (top : frame.neutral = true)
    (neutral : Neutral above) : Neutral (frame :: above) := by
  intro other member
  rcases List.mem_cons.mp member with rfl | deeper
  · exact top
  · exact neutral other deeper

/-- A queue that has items to process has a first one. -/
theorem items_of_canProcess {q : Queue Item} (can : q.canProcess = true) :
    q.isBusy = false ∧ ∃ qi rest, q.items = qi :: rest := by
  simp only [Queue.canProcess, Bool.and_eq_true, Bool.not_eq_true', List.isEmpty_eq_false_iff]
    at can
  exact ⟨can.2, List.exists_cons_of_ne_nil can.1⟩

/-- An activation that looks at a queue that it cannot process returns. -/
theorem return_from_queue (inv : Invariant s) {frame : Frame} {below : List Frame}
    (stack : s.stack = frame :: below) (top : frame = .processLoop ∨ frame = .isComplete)
    (cannot : s.queue.canProcess = false) : Invariant { s with stack := below } := by
  have quietTop : frame.quiet = true := by rcases top with rfl | rfl <;> rfl
  have neutralTop : frame.neutral = true := by rcases top with rfl | rfl <;> rfl
  have quietBelow := inv.work.quiet stack quietTop
  have work : Work { s with stack := below } := by
    cases inv.work with
    | idle queue quiet none resumes =>
      refine .idle queue quietBelow none fun items => ?_
      have free : s.queue.isBusy = false := queue.1
      simp [Queue.canProcess, free] at cannot
      exact absurd cannot items
    | executing _ _ _ shape =>
      rcases shape with shape | shape <;> rw [stack] at shape <;> cases shape <;> cases quietTop
    | awaiting queue quiet one => exact .awaiting queue quietBelow one
  refine inv.same rfl work (inv.nodes.same rfl rfl) ?_ ?_
  · refine sameScan [frame] [] stack rfl (neutral_nil.cons neutralTop) neutral_nil rfl rfl rfl rfl
      rfl ?_
    rintro ⟨sent, rest, running⟩
    rw [stack] at running
    cases running
    cases quietTop
  · intro rest calls
    rw [stack] at calls
    cases calls
    cases neutralTop

/-- `queue_is_complete` goes on to process the queue. -/
theorem advance_isComplete (inv : Invariant s) {below : List Frame}
    (stack : s.stack = .isComplete :: below) :
    ∃ next, advance s = .ok next ∧ Invariant next := by
  by_cases can : s.queue.canProcess = true
  · refine ⟨{ s with stack := .processLoop :: below }, by simp [advance, stack, can], ?_⟩
    have quietBelow := inv.work.quiet stack rfl
    refine inv.same rfl ?_ (inv.nodes.same rfl rfl) ?_ ?_
    · refine inv.work.restack ?_ rfl rfl (quietBelow.push rfl) ?_
      · rw [stack]
        exact quietBelow.push rfl
      · exact fun _ => ⟨.processLoop, List.mem_cons_self, rfl⟩
    · refine sameScan [.isComplete] [.processLoop] stack rfl (neutral_nil.cons rfl)
        (neutral_nil.cons rfl) rfl rfl rfl rfl rfl ?_
      rintro ⟨sent, rest, running⟩
      rw [stack] at running
      cases running
    · intro rest calls
      rw [stack] at calls
      cases calls
  · have cannot : s.queue.canProcess = false := by simpa using can
    exact ⟨_, by simp [advance, stack, cannot],
      return_from_queue inv stack (.inr rfl) cannot⟩

/-- `queue_process_loop` starts the first item or returns. -/
theorem advance_processLoop (inv : Invariant s) {below : List Frame}
    (stack : s.stack = .processLoop :: below) :
    ∃ next, advance s = .ok next ∧ Invariant next := by
  by_cases can : s.queue.canProcess = true
  · obtain ⟨free, qi, rest, items⟩ := items_of_canProcess can
    obtain ⟨idle, quiet, none⟩ := inv.work.of_free free
    obtain ⟨queue, processes, running, flag, conn⟩ := Queue.queueProcess_idle idle items
    have fresh : qi.state = .new := idle.2 qi (by simp [items])
    refine ⟨{ s with
      queue
      stack := .execute qi.data false :: .processed :: below
      trace := s.trace ++ executes s.scan qi.data }, ?_, ?_⟩
    · simp only [advance, stack, can, if_true, processes]
      rfl
    have work : Work { s with
        queue
        stack := .execute qi.data false :: .processed :: below
        trace := s.trace ++ executes s.scan qi.data } := by
      rw [stack] at quiet
      exact .executing false running flag (.inl rfl) quiet.tail none
    have neutralBefore : Neutral [.processLoop] := neutral_nil.cons rfl
    have neutralAfter : Neutral [.execute qi.data false, .processed] :=
      (neutral_nil.cons rfl).cons rfl
    have notRunning : ¬ FiltersRun s := by
      rintro ⟨sent, rest, runs⟩
      rw [stack] at runs
      cases runs
    have elsewhere : ∀ below, s.stack ≠ .advanceScan :: below := by
      intro rest calls
      rw [stack] at calls
      cases calls
    by_cases mine : qi.data.scans = true
    · -- The item is the scan's: it was queued and begins.
      have before : requests s = qi :: rest.filter (·.data.scans) := by
        simp [requests, items, mine]
      have fields : SameFields s { s with
          queue
          stack := .execute qi.data false :: .processed :: below
          trace := s.trace ++ executes s.scan qi.data } :=
        sameFields [.processLoop] _ stack rfl neutralBefore.settled neutralAfter.settled rfl rfl
      obtain ⟨rounds, complete, token⟩ := inv.token
      refine ⟨conn ▸ inv.conn, work, inv.nodes.same rfl rfl, rounds, complete, ?_⟩
      cases token with
      | calling top | done top | removed top => exact absurd top (elsewhere _)
      | removing shows =>
        have none := shows.items
        rw [before] at none
        cases none
      | resting shows =>
        have none := shows.items
        rw [before] at none
        cases none
      | begun shows =>
        have one := shows.items
        rw [before] at one
        rw [(List.cons.inj one).1] at fresh
        cases fresh
      | @waiting place after item event shows timer flight =>
        have one := shows.items
        rw [before] at one
        obtain ⟨rfl, others⟩ := List.cons.inj one
        refine .begun ⟨?_, ?_, ?_⟩ timer (flight.same fields) ?_
        · have marks := shows.marks
          rw [stack] at marks
          exact marks
        · simp only [requests, running.2.1, List.filter_cons, mine, if_true, others]
        · show s.trace ++ executes s.scan item = _
          rw [shows.trace, flight.executes]
        · rintro rfl stopped
          refine absurd ?_ stopped
          cases flight
          exact ⟨false, _, rfl⟩
    · have other : qi.data.scans = false := by simpa using mine
      have silent : executes s.scan qi.data = [] := by
        cases data : qi.data <;> rw [data] at other <;> first | rfl | cases other
      refine inv.same conn work (inv.nodes.same rfl rfl) ?_ elsewhere
      refine sameScan [.processLoop] _ stack rfl neutralBefore neutralAfter rfl rfl ?_ rfl ?_
        (fun runs => absurd runs notRunning)
      · simp [requests, running.2.1, items, other]
      · simp [silent]
  · have cannot : s.queue.canProcess = false := by simpa using can
    exact ⟨_, by simp [advance, stack, cannot],
      return_from_queue inv stack (.inl rfl) cannot⟩

/-- The item that runs is the scan's one that has begun. -/
theorem begun_runs {data item : Item} {rest : List (QueueItem Item)}
    (running : s.queue.Running data rest) (items : requests s = [⟨item, .sent⟩]) :
    data = item ∧ rest.filter (·.data.scans) = [] := by
  obtain ⟨_, list, fresh⟩ := running
  rw [requests, list, List.filter_cons] at items
  by_cases mine : data.scans = true
  · rw [if_pos mine] at items
    obtain ⟨same, others⟩ := List.cons.inj items
    exact ⟨congrArg QueueItem.data same, others⟩
  · rw [if_neg mine] at items
    have member : (⟨item, .sent⟩ : QueueItem Item) ∈ rest := by
      apply List.mem_of_mem_filter (p := fun qi : QueueItem Item => qi.data.scans)
      rw [items]
      exact List.mem_singleton_self _
    have state := fresh _ member
    cases state

/-- While an item runs that is not the scan's, the scan's is not the one that has begun. -/
theorem other_runs {data : Item} {rest : List (QueueItem Item)}
    (running : s.queue.Running data rest) (other : data.scans = false) :
    requests s = rest.filter (·.data.scans) := by
  simp [requests, running.2.1, other]

/-- When its item has completed, the scan is ready for the next place. -/
theorem Flight.ready {place after : Place} {item : Item} {event : Event}
    (flight : Flight s place item event after)
    (returned : place = .filters → s.scan.state = .dumpChains) (fields : SameFields s next) :
    ∃ reached, Ready next reached ∧ reached.past = after.past := by
  cases flight.same fields with
  | filters idx settled =>
    exact ⟨.chains, .chains (fields.state.trans (returned rfl)) idx settled, rfl⟩
  | chains state idx settled => exact ⟨.init, .init state idx settled, rfl⟩
  | chain number idx cursor sane =>
    rcases cursor with ⟨one, state, _⟩ | ⟨none, moved⟩
    · refine ⟨_, .early state ?_ sane, rfl⟩
      rw [one]
      decide
    · cases moved with
      | more state cursor => exact ⟨_, .chain state idx none cursor, rfl⟩
      | last state complete =>
        exact ⟨.helper _ 1, .helper state idx none (Nat.le_refl 1) (by decide) complete,
          past_second _⟩
  | helper state idx settled positive here complete =>
    have bound : _ < helpers.length := (List.getElem?_eq_some_iff.mp here).1
    exact ⟨_, .helper state idx settled (Nat.le_succ_of_le positive) bound complete, rfl⟩

/-- The running item completes, called from an activation that looks at the queue again. -/
theorem handleCompleted_ok (inv : Invariant s) {data : Item} {rest : List (QueueItem Item)}
    (running : s.queue.Running data rest) (above : List Frame) {below : List Frame}
    (stack : s.stack = above ++ below) (neutral : Neutral above) (quiet : Quiet below)
    (stopped : ¬ FiltersRun s) (elsewhere : ∀ below, s.stack ≠ .advanceScan :: below)
    (caller : Frame) (resumes : caller.resumes = true) {t : State}
    (idle : t = { s with outstanding := 0 }) :
    ∃ next, handleCompleted t (caller :: below) = .ok next ∧ Invariant next := by
  obtain ⟨queue, completes, free, items, conn⟩ := Queue.handleQueueCompleted_running running
  have quietCaller : caller.quiet = true := by cases caller <;> first | rfl | cases resumes
  have neutralCaller : caller.neutral = true := by cases caller <;> first | rfl | cases resumes
  have connected : ∃ c, queue.conn = some c := conn ▸ inv.conn
  subst idle
  -- Where the completed item is not the scan's, its callback may be entered.
  have others : ∀ callback, Quiet callback → Neutral callback → data.scans = false →
      Invariant { s with
        queue, outstanding := 0, stack := callback ++ caller :: below } := by
    intro callback quietCallback neutralCallback other
    refine inv.same conn ?_ (inv.nodes.same rfl rfl) ?_ elsewhere
    · refine .idle free ?_ rfl fun _ => ⟨caller, by simp, resumes⟩
      intro frame member
      rcases List.mem_append.mp member with new | old
      · exact quietCallback frame new
      · exact quiet.push quietCaller frame old
    · refine sameScan above (callback ++ [caller]) stack (by simp) neutral ?_ rfl rfl ?_ rfl rfl
        (fun runs => absurd runs stopped)
      · intro frame member
        rcases List.mem_append.mp member with new | old
        · exact neutralCallback frame new
        · rw [List.mem_singleton] at old
          exact old ▸ neutralCaller
      · rw [other_runs running other]
        simp [requests, items]
  -- The scan's own item calls `advance_scan`.
  have own : data.scans = true → Invariant { s with
      queue, outstanding := 0, stack := .advanceScan :: caller :: below,
      trace := s.trace ++ [.completes] } := by
    intro mine
    refine ⟨connected, ?_, inv.nodes.same rfl rfl, ?_⟩
    · exact .idle free ((quiet.push quietCaller).push rfl) rfl
        fun _ => ⟨caller, by simp, resumes⟩
    · obtain ⟨rounds, complete, token⟩ := inv.token
      refine ⟨rounds, complete, ?_⟩
      have first : requests s = ⟨data, .sent⟩ :: rest.filter (·.data.scans) := by
        simp [requests, running.2.1, mine]
      cases token with
      | calling top | done top | removed top => exact absurd top (elsewhere _)
      | removing shows =>
        have none := shows.items
        rw [first] at none
        cases none
      | resting shows =>
        have none := shows.items
        rw [first] at none
        cases none
      | waiting shows =>
        have one := shows.items
        rw [first] at one
        cases (List.cons.inj one).1
      | begun shows timer flight returned =>
        obtain ⟨same, none⟩ := begun_runs running shows.items
        subst same
        have settled : Settled [.advanceScan, caller] := by
          have plain := (neutral_nil.cons neutralCaller).settled
          exact ⟨by simpa using plain.1, by simpa using plain.2⟩
        have fields : SameFields s { s with
            queue, outstanding := 0, stack := .advanceScan :: caller :: below,
            trace := s.trace ++ [.completes] } :=
          sameFields above [.advanceScan, caller] stack rfl neutral.settled settled rfl rfl
        obtain ⟨reached, ready, past⟩ :=
          flight.ready (fun filters => returned filters stopped) fields
        refine .calling rfl ⟨?_, ?_, ?_⟩ timer ready
        · have marks := shows.marks
          rw [stack, List.filter_append, neutral.marks, List.nil_append] at marks
          have callerMark : caller.scans = false := by
            cases caller <;> first | rfl | cases resumes
          simp only [List.filter_cons, callerMark, marks]
          rfl
        · simp [requests, items, none]
        · show s.trace ++ [.completes] = _
          rw [shows.trace, past, flight.past]
          simp
  simp only [handleCompleted, completes, bind, Except.bind]
  cases data with
  | scanHelper helper => exact ⟨_, rfl, own rfl⟩
  | scanChains => exact ⟨_, rfl, own rfl⟩
  | scanChain ch => exact ⟨_, rfl, own rfl⟩
  | scanBreak => exact ⟨_, rfl, others [] quiet_nil neutral_nil rfl⟩
  | other hasCompleted =>
    cases hasCompleted with
    | false => exact ⟨_, rfl, others [] quiet_nil neutral_nil rfl⟩
    | true =>
      exact ⟨_, rfl, others [.completed] (quiet_nil.push rfl) (neutral_nil.cons rfl) rfl⟩

/-- `queue_process_loop` ends when a request was sent and else completes the item. -/
theorem advance_processed (inv : Invariant s) {below : List Frame}
    (stack : s.stack = .processed :: below) :
    ∃ next, advance s = .ok next ∧ Invariant next := by
  have stopped : ¬ FiltersRun s := by
    rintro ⟨sent, rest, runs⟩
    rw [stack] at runs
    cases runs
  have elsewhere : ∀ below, s.stack ≠ .advanceScan :: below := by
    intro rest calls
    rw [stack] at calls
    cases calls
  cases inv.work with
  | idle _ quiet =>
    rw [stack] at quiet
    cases quiet _ List.mem_cons_self
  | awaiting _ quiet =>
    rw [stack] at quiet
    cases quiet _ List.mem_cons_self
  | executing sent running flag shape quiet count =>
    rcases shape with shape | shape <;> rw [stack] at shape <;> cases shape
    cases sent with
    | true =>
      refine ⟨{ s with stack := below }, by simp [advance, stack, flag], ?_⟩
      refine inv.same rfl (.awaiting running quiet count) (inv.nodes.same rfl rfl) ?_ elsewhere
      exact sameScan [.processed] [] stack rfl (neutral_nil.cons rfl) neutral_nil rfl rfl rfl rfl
        rfl fun runs => absurd runs stopped
    | false =>
      simp only [advance, stack, flag]
      have idle : s = { s with outstanding := 0 } := by
        have zero : s.outstanding = 0 := count
        rw [← zero]
      exact handleCompleted_ok inv running [.processed] stack (neutral_nil.cons rfl) quiet stopped
        elsewhere .processLoop rfl idle

end Steps

section Advance

variable {s : State} {below : List Frame}

/-- A cursor depends on the pointer and the tree only. -/
theorem Cursor.same {next : State} {r : Round} {ch : Chain} (cursor : Cursor s r ch)
    (here : next.scan.nextChain = s.scan.nextChain) (tree : next.chainTree = s.chainTree) :
    Cursor next r ch where
  here := here.trans cursor.here
  sane := cursor.sane
  inside := by
    rw [tree]
    exact cursor.inside
  split := by
    rw [tree]
    exact cursor.split

/-- The chain at the cursor is not dumped yet. -/
theorem Cursor.dump {r : Round} {ch : Chain} (cursor : Cursor s r ch) (nodes : Nodes s) :
    (r.dump ch).Sane := by
  obtain ⟨before, after, split, dumped, _⟩ := cursor.split
  have fresh : ch ∉ before := by
    have nodup := nodes.nodup
    rw [split, List.nodup_middle, List.nodup_cons, List.mem_append] at nodup
    exact fun member => nodup.1 (.inl member)
  refine ⟨cursor.sane.found, ?_⟩
  show (r.dumped ++ [ch]).Nodup
  rw [List.nodup_append_comm]
  exact List.nodup_cons.mpr ⟨fun member => fresh (dumped ch member), cursor.sane.dumped⟩

/-- After `queue_schedule` the loop is on top of the caller, or nothing is. -/
theorem schedule_stack (item : Item) (t : State) (caller : List Frame) :
    ∃ above, Neutral above ∧ (queueSchedule item t caller).stack = above ++ caller := by
  by_cases busy : t.queue.isBusy = true
  · exact ⟨[], neutral_nil, by simp [queueSchedule, busy]⟩
  · exact ⟨[.processLoop], neutral_nil.cons rfl, by simp [queueSchedule, busy]⟩

/-- What an activation schedules is counted with the assignment that it owes. -/
theorem schedule_count {frame : Frame} (counted : frame.neutral = false) (item : Item) (t : State)
    (caller : List Frame) : (queueSchedule item t caller).stack.count frame = caller.count frame := by
  obtain ⟨above, neutral, stack⟩ := schedule_stack item t caller
  have none : frame ∉ above := by
    intro member
    rw [neutral frame member] at counted
    cases counted
  rw [stack, List.count_append, List.count_eq_zero.mpr none, Nat.zero_add]

/-- The parts of the invariant that do not concern the scan, when `advance_scan` schedules. -/
theorem Invariant.schedule (inv : Invariant s) (stack : s.stack = .advanceScan :: below)
    (scan : Scan) (item : Item) (owed : List Frame) (quiet : Quiet owed) :
    (∃ c, (queueSchedule item { s with scan } (owed ++ below)).queue.conn = some c) ∧
      Work (queueSchedule item { s with scan } (owed ++ below)) ∧
      Nodes (queueSchedule item { s with scan } (owed ++ below)) := by
  have quietBelow := inv.work.quiet stack rfl
  have quietStack : Quiet s.stack := by
    rw [stack]
    exact quietBelow.push rfl
  refine ⟨inv.conn, ?_, inv.nodes.same rfl rfl⟩
  have work : Work { s with scan } := inv.work.restack quietStack rfl rfl quietStack id
  apply work.schedule quietStack
  intro frame member
  rcases List.mem_append.mp member with new | old
  · exact quiet frame new
  · exact quietBelow frame old

/-- What is shown after `advance_scan` has scheduled an item of its own. -/
theorem Shows.schedule {trace : List Event} (shows : Shows s [.advanceScan] [] trace)
    (stack : s.stack = .advanceScan :: below) (scan : Scan) (item : Item)
    (mine : item.scans = true) (owed : List Frame) (unmarked : owed.filter Frame.scans = []) :
    Shows (queueSchedule item { s with scan } (owed ++ below)) [] [⟨item, .new⟩] trace := by
  have marks := shows.marks
  have items := shows.items
  obtain ⟨above, neutral, after⟩ := schedule_stack item { s with scan } (owed ++ below)
  constructor
  · rw [stack] at marks
    have rest : below.filter Frame.scans = [] := (List.cons.inj marks).2
    rw [after, List.filter_append, List.filter_append, neutral.marks, unmarked, rest]
    rfl
  · unfold requests at items ⊢
    simp only [queueSchedule, Queue.enqueue, List.filter_append, items]
    simp [mine]
  · exact shows.trace

/-- `SCAN_RUN_HELPERS`, where no helper that was scheduled is left to move on from. -/
theorem runHelpers_ok (inv : Invariant s) (stack : s.stack = .advanceScan :: below)
    {earlier : List Event} {place : Place} (after : Place) {helper : Helper}
    (shows : Shows s [.advanceScan] [] (earlier ++ place.past)) (timer : s.timerActive = false)
    (here : scanHelpers[s.scan.helperIdx]? = some (some helper))
    (flight : ∀ next : State, next.scan = s.scan →
      next.stack.count .afterHelper = below.count .afterHelper + 1 →
      behind next = below.count .afterChain →
      Flight next place (.scanHelper helper) (.runs helper) after) :
    ∃ next, runHelpers s below = .ok next ∧ (∃ c, next.queue.conn = some c) ∧ Work next ∧
      Nodes next ∧ Token next earlier := by
  obtain ⟨conn, work, nodes⟩ := inv.schedule stack s.scan (.scanHelper helper) [.afterHelper]
    (quiet_nil.push rfl)
  refine ⟨queueSchedule (.scanHelper helper) s (.afterHelper :: below), ?_, conn, work, nodes, ?_⟩
  · unfold runHelpers
    rw [here]
  · refine .waiting (shows.schedule stack s.scan (.scanHelper helper) rfl [.afterHelper] rfl)
      timer (flight _ rfl ?_ ?_)
    · rw [schedule_count rfl]
      simp
    · rw [behind, schedule_count rfl]
      simp

/-- What is counted of the caller is counted of the stack. -/
theorem owed_below (stack : s.stack = .advanceScan :: below) :
    owedIdx s = s.scan.helperIdx + below.count .afterHelper ∧
      behind s = below.count .afterChain := by
  unfold owedIdx behind
  rw [stack]
  simp

/-- `advance_scan` where it is called for a place of a round, but for an early call. -/
theorem advanceScan_calling (inv : Invariant s) (stack : s.stack = .advanceScan :: below)
    (calm : ¬ Reenters s) {earlier : List Event} {place : Place}
    (shows : Shows s [.advanceScan] [] (earlier ++ place.past)) (timer : s.timerActive = false)
    (ready : Ready s place) :
    ∃ next, advanceScan s below = .ok next ∧ (∃ c, next.queue.conn = some c) ∧ Work next ∧
      Nodes next ∧ Token next earlier := by
  obtain ⟨idxBelow, behindBelow⟩ := owed_below stack
  have replaced : ∀ scan trace, Work { s with scan, stack := .advanceScan :: below, trace } :=
    fun scan trace => inv.work.replace [.advanceScan] stack rfl rfl rfl rfl rfl
      (quiet_nil.push rfl)
  cases ready with
  | filters state idx settled =>
    simp only [advanceScan, state]
    have none : s.scan.helperIdx = 0 ∧ below.count .afterHelper = 0 := by omega
    have pointer : scanHelpers[s.scan.helperIdx]? = some (some .scanFilters) := by
      rw [none.1]
      rfl
    refine runHelpers_ok inv stack .chains shows timer pointer ?_
    intro next scan helpers chains
    apply Flight.filters
    · unfold owedIdx
      rw [scan, helpers, none.1, none.2]
    · rw [chains, ← behindBelow, settled]
  | chains state idx settled =>
    simp only [advanceScan, state]
    obtain ⟨conn, work, nodes⟩ := inv.schedule stack
      { s.scan with state := .dumpEachChainInit } .scanChains [] quiet_nil
    refine ⟨_, rfl, conn, work, nodes, ?_⟩
    refine .waiting (shows.schedule stack _ .scanChains rfl [] rfl) timer (.chains rfl ?_ ?_)
    · unfold owedIdx
      rw [schedule_count rfl]
      exact idxBelow.symm.trans idx
    · unfold behind
      rw [schedule_count rfl]
      exact behindBelow.symm.trans settled
  | init state idx settled =>
    simp only [advanceScan, state]
    refine ⟨_, rfl, inv.conn, replaced _ _, inv.nodes.same rfl rfl, ?_⟩
    cases sequence : s.chainTree.toList with
    | nil =>
      refine @Token.calling _ _ (.helper ⟨[], []⟩ 1) _ rfl ⟨?_, shows.items, ?_⟩ timer ?_
      · exact stack ▸ shows.marks
      · simp [shows.trace, Place.past, dumps, ran]
      · refine .helper rfl ?_ ?_ (Nat.le_refl 1) (by decide) complete_empty
        · exact stack ▸ idx
        · exact stack ▸ settled
    | cons ch rest =>
      refine @Token.calling _ _ (.chain ⟨ch :: rest, []⟩) _ rfl ⟨?_, shows.items, ?_⟩ timer ?_
      · exact stack ▸ shows.marks
      · simp [shows.trace, Place.past, dumps]
      · refine @Ready.chain _ _ ch rfl ?_ ?_ ?_
        · exact stack ▸ idx
        · exact stack ▸ settled
        · have nodup := inv.nodes.nodup
          rw [sequence] at nodup
          refine ⟨rfl, ⟨nodup, List.nodup_nil⟩, fun other found => ?_, [], rest, sequence, ?_, ?_⟩
          · show other ∈ s.chainTree.toList
            rw [sequence]
            exact found
          · exact fun other member => nomatch member
          · exact fun other _ member => nomatch member
  | @chain r ch state idx settled cursor =>
    have step : advanceScan s below = .ok (queueSchedule (.scanChain ch)
        { s with scan := { s.scan with qChainNo := ch.chainNo } } (.afterChain :: below)) := by
      simp only [advanceScan, state, cursor.here]
    obtain ⟨conn, work, nodes⟩ := inv.schedule stack
      { s.scan with qChainNo := ch.chainNo } (.scanChain ch) [.afterChain] (quiet_nil.push rfl)
    refine ⟨_, step, conn, work, nodes, ?_⟩
    refine .waiting (shows.schedule stack _ (.scanChain ch) rfl [.afterChain] rfl) timer
      (.chain rfl ?_ (.inl ⟨?_, state, cursor.same rfl rfl⟩) (cursor.dump inv.nodes))
    · unfold owedIdx
      rw [schedule_count rfl]
      simpa [queueSchedule] using idxBelow.symm.trans idx
    · unfold behind
      rw [schedule_count rfl]
      simpa using behindBelow.symm.trans settled
  | early state stale =>
    refine absurd ⟨below, stack, .inr ⟨state, ?_⟩⟩ calm
    rw [behindBelow] at stale
    exact List.count_pos_iff.mp (Nat.pos_of_ne_zero stale)
  | @helper r index state idx settled positive bound complete =>
    have moved : below.count .afterHelper = 0 := by
      by_contra some
      exact calm ⟨below, stack, .inl ⟨state, List.count_pos_iff.mp (Nat.pos_of_ne_zero some)⟩⟩
    have here : s.scan.helperIdx = index := by omega
    simp only [advanceScan, state]
    by_cases last : index = 6
    · subst last
      unfold runHelpers
      rw [here]
      refine ⟨_, rfl, inv.conn, replaced _ _, inv.nodes.same rfl rfl, ?_⟩
      refine .done rfl ⟨?_, shows.items, shows.trace⟩ timer rfl ⟨rfl, ?_, ?_⟩ complete
      · exact stack ▸ shows.marks
      · simpa using moved
      · exact stack ▸ settled
    · have inside : index < helpers.length := by
        show index < 6
        omega
      have pointer : scanHelpers[s.scan.helperIdx]? = some (some helpers[index]) := by
        rw [here]
        show (helpers.map some ++ [none])[index]? = _
        rw [List.getElem?_append_left (by simpa using inside)]
        simp [inside]
      refine runHelpers_ok inv stack (.helper r (index + 1)) shows timer pointer ?_
      intro next scan owed chains
      apply Flight.helper _ _ _ positive (List.getElem?_eq_getElem inside) complete
      · rw [scan, state]
      · unfold owedIdx
        rw [scan, owed, here, moved]
      · rw [chains, ← behindBelow, settled]

/-- `advance_scan` of a scan that was initialised, where the call is expected. -/
theorem advanceScan_ok (inv : Invariant s) (stack : s.stack = .advanceScan :: below)
    (calm : ¬ Reenters s) : ∃ next, advanceScan s below = .ok next ∧ Invariant next := by
  have quietBelow := inv.work.quiet stack rfl
  have quietStack : Quiet s.stack := by
    rw [stack]
    exact quietBelow.push rfl
  obtain ⟨rounds, complete, token⟩ := inv.token
  cases token with
  | calling top shows timer ready =>
    cases stack.symm.trans top
    obtain ⟨next, step, conn, work, nodes, token⟩ :=
      advanceScan_calling inv stack calm shows timer ready
    exact ⟨next, step, conn, work, nodes, rounds, complete, token⟩
  | @done r _ top shows timer state between whole =>
    have work : Work { s with
        stack := .removePin :: below, trace := s.trace ++ [.removesPin] } :=
      inv.work.replace [.removePin] stack rfl rfl rfl rfl rfl (quiet_nil.push rfl)
    refine ⟨{ s with stack := .removePin :: below, trace := s.trace ++ [.removesPin] },
      by simp only [advanceScan, state], inv.conn, work, inv.nodes.same rfl rfl,
      rounds ++ [r], ?_, ?_⟩
    · intro other member
      rcases List.mem_append.mp member with old | new
      · exact complete other old
      · exact List.mem_singleton.mp new ▸ whole
    · have marks := shows.marks
      have owed := between.owed
      have settled := between.settled
      unfold behind at settled
      rw [stack] at marks owed settled
      refine .removing ⟨?_, shows.items, ?_⟩ timer ⟨between.idx, by simpa using owed,
        by simpa [behind] using settled⟩
      · have rest : below.filter Frame.scans = [] := (List.cons.inj marks).2
        simp [List.filter_cons, Frame.scans, rest]
      · rw [List.flatMap_append, List.flatMap_singleton, ← past_last]
        show s.trace ++ [.removesPin] = _
        rw [shows.trace, List.append_assoc]
  | removed top shows timer state between =>
    cases stack.symm.trans top
    have marks := shows.marks
    have owed := between.owed
    have settled := between.settled
    unfold behind at settled
    rw [stack] at marks owed settled
    have rest : below.filter Frame.scans = [] := (List.cons.inj marks).2
    by_cases exit : s.exitAfterFirstSync = true
    · obtain ⟨conn, work, nodes⟩ := inv.schedule stack s.scan .scanBreak [.afterBreak]
        (quiet_nil.push rfl)
      refine ⟨queueSchedule .scanBreak s (.afterBreak :: below), by simp [advanceScan, state, exit],
        conn, work, nodes, rounds, complete, ?_⟩
      obtain ⟨above, neutral, after⟩ := schedule_stack .scanBreak s (.afterBreak :: below)
      refine .resting ⟨?_, ?_, shows.trace⟩ state ⟨between.idx, ?_, ?_⟩
      · have active : (queueSchedule .scanBreak s (.afterBreak :: below)).timerActive = false :=
          timer
        rw [active, after, List.filter_append, neutral.marks]
        simp [List.filter_cons, Frame.scans, rest]
      · have items := shows.items
        unfold requests at items ⊢
        simp only [queueSchedule, Queue.enqueue, List.filter_append, items]
        rfl
      · rw [schedule_count rfl]
        simpa using owed
      · rw [behind, schedule_count rfl]
        simpa using settled
    · have work : Work { s with stack := .afterBreak :: below } :=
        inv.work.replace [.afterBreak] stack rfl rfl rfl rfl rfl (quiet_nil.push rfl)
      refine ⟨{ s with stack := .afterBreak :: below }, by simp [advanceScan, state, exit],
        inv.conn, work, inv.nodes.same rfl rfl, rounds, complete, ?_⟩
      refine .resting ⟨?_, shows.items, shows.trace⟩ state ⟨between.idx, by simpa using owed,
        by simpa [behind] using settled⟩
      show (Frame.afterBreak :: below).filter Frame.scans = _
      rw [timer]
      simp [List.filter_cons, Frame.scans, rest]
  | waiting shows | begun shows | removing shows | resting shows =>
    have marks := shows.marks
    rw [stack] at marks
    first
      | cases marks
      | (split at marks <;> cases marks)

/-- `advance_scan` moves on from a helper. -/
theorem advance_afterHelper (inv : Invariant s) (stack : s.stack = .afterHelper :: below) :
    ∃ next, advance s = .ok next ∧ Invariant next := by
  refine ⟨{ s with scan := { s.scan with helperIdx := s.scan.helperIdx + 1 }, stack := below },
    by simp [advance, stack], ?_⟩
  have work : Work { s with
      scan := { s.scan with helperIdx := s.scan.helperIdx + 1 }, stack := below } :=
    inv.work.replace [] stack rfl rfl rfl rfl rfl quiet_nil
  refine inv.same rfl work (inv.nodes.same rfl rfl) ⟨⟨rfl, rfl, ?_, ?_, ?_, ?_⟩, ?_, rfl, rfl, rfl,
    ?_⟩ ?_
  · exact fun r ch cursor => cursor.same rfl rfl
  · unfold owedIdx
    rw [stack, List.count_cons_self]
    show s.scan.helperIdx + 1 + below.count .afterHelper = _
    omega
  · simp [behind, stack]
  · intro between
    have owed := between.owed
    rw [stack, List.count_cons_self] at owed
    cases owed
  · simp [stack, Frame.scans]
  · rintro ⟨sent, rest, runs⟩
    rw [stack] at runs
    cases runs
  · intro rest calls
    rw [stack] at calls
    cases calls

/-- The cursor moves on: every chain was dumped, or the next one is not. -/
theorem Cursor.next {r : Round} {ch : Chain} (cursor : Cursor s r ch) (nodes : Nodes s) :
    (s.chainTree.next ch = none ∧ (r.dump ch).Complete) ∨
      ∃ ch', s.chainTree.next ch = some ch' ∧ ∀ t : State, t.scan.nextChain = some ch' →
        t.chainTree = s.chainTree → Cursor t (r.dump ch) ch' := by
  have sane := cursor.dump nodes
  obtain ⟨before, after, split, dumped, all⟩ := cursor.split
  have fresh : ch ∉ before := by
    have nodup := nodes.nodup
    rw [split, List.nodup_middle, List.nodup_cons, List.mem_append] at nodup
    exact fun member => nodup.1 (.inl member)
  have found : ∀ other ∈ r.found, other ∈ before ++ [ch] → other ∈ (r.dump ch).dumped := by
    intro other inside member
    rcases List.mem_append.mp member with old | new
    · exact List.mem_append_left _ (all other inside old)
    · exact List.mem_append_right _ new
  rw [SearchTree.next_of_split split fresh]
  cases after with
  | nil =>
    refine .inl ⟨rfl, sane.dumped, fun other inside => found other inside ?_⟩
    have member := cursor.inside other inside
    rw [split] at member
    exact member
  | cons ch' rest =>
    refine .inr ⟨ch', rfl, fun t here tree => ⟨here, sane, ?_, before ++ [ch], rest, ?_, ?_,
      found⟩⟩
    · rw [tree]
      exact cursor.inside
    · rw [tree, split]
      simp
    · intro other member
      rcases List.mem_append.mp member with old | new
      · exact List.mem_append_left _ (dumped other old)
      · exact List.mem_append_right _ new

/-- While a chain is not moved on from, it is being dumped and the cursor is at it. -/
theorem Token.behind {past : List Event} (token : Token s past) (stale : behind s ≠ 0)
    (elsewhere : ∀ below, s.stack ≠ .advanceScan :: below) :
    ∃ r ch, Cursor s r ch ∧ Scanning.behind s = 1 ∧ s.scan.state = .dumpEachChain := by
  have inFlight : ∀ {place after : Place} {item : Item} {event : Event},
      Flight s place item event after →
      ∃ r ch, Cursor s r ch ∧ Scanning.behind s = 1 ∧ s.scan.state = .dumpEachChain := by
    intro place after item event flight
    cases flight with
    | filters _ settled => exact absurd settled stale
    | chains _ _ settled => exact absurd settled stale
    | helper _ _ settled => exact absurd settled stale
    | @chain r ch _ _ cursor =>
      rcases cursor with ⟨one, state, cursor⟩ | ⟨none, _⟩
      · exact ⟨r, ch, cursor, one, state⟩
      · exact absurd none stale
  cases token with
  | calling top | done top | removed top => exact absurd top (elsewhere _)
  | waiting _ _ flight => exact inFlight flight
  | begun _ _ flight => exact inFlight flight
  | removing _ _ between => exact absurd between.settled stale
  | resting _ _ between => exact absurd between.settled stale

/-- A chain that is being dumped is moved on from. -/
theorem Flight.moved {next : State} {place after : Place} {item : Item} {event : Event}
    (flight : Flight s place item event after) (nodes : Nodes s) (stale : behind s = 1)
    (settled : behind next = 0) (idx : owedIdx next = owedIdx s)
    (number : next.scan.qChainNo = s.scan.qChainNo) (tree : next.chainTree = s.chainTree)
    (moves : ∀ ch, s.scan.nextChain = some ch → next.scan.nextChain = s.chainTree.next ch ∧
      next.scan.state = if s.chainTree.next ch = none then .runHelpers else s.scan.state) :
    Flight next place item event after := by
  cases flight with
  | filters _ none => omega
  | chains _ _ none => omega
  | helper _ _ none => omega
  | @chain r ch here one cursor sane =>
    rcases cursor with ⟨_, state, cursor⟩ | ⟨none, _⟩
    · refine .chain (number.trans here) (idx.trans one) (.inr ⟨settled, ?_⟩) sane
      obtain ⟨pointer, after⟩ := moves ch cursor.here
      rcases cursor.next nodes with ⟨last, complete⟩ | ⟨ch', more, cursor'⟩
      · rw [if_pos last] at after
        exact .last after complete
      · rw [more] at pointer
        rw [more, if_neg (by simp)] at after
        exact .more (after.trans state) (cursor' next pointer tree)
    · omega

/-- `advance_scan` moves on from a chain; there is one to move on from. -/
theorem advance_afterChain (inv : Invariant s) (stack : s.stack = .afterChain :: below) :
    ∃ next, advance s = .ok next ∧ Invariant next := by
  have elsewhere : ∀ below, s.stack ≠ .advanceScan :: below := by
    intro rest calls
    rw [stack] at calls
    cases calls
  have stale : behind s = below.count .afterChain + 1 := by
    rw [behind, stack, List.count_cons_self]
  obtain ⟨rounds, complete, token⟩ := inv.token
  obtain ⟨r, ch, cursor, one, state⟩ := token.behind (by omega) elsewhere
  refine ⟨{ s with
    scan := { s.scan with
      nextChain := s.chainTree.next ch
      state := if s.chainTree.next ch = none then .runHelpers else s.scan.state }
    stack := below }, by simp [advance, stack, cursor.here], inv.conn, ?_,
    inv.nodes.same rfl rfl, rounds, complete, ?_⟩
  · exact inv.work.replace [] stack rfl rfl rfl rfl rfl quiet_nil
  have flies : ∀ {place after : Place} {item : Item} {event : Event},
      Flight s place item event after → Flight { s with
        scan := { s.scan with
          nextChain := s.chainTree.next ch
          state := if s.chainTree.next ch = none then .runHelpers else s.scan.state }
        stack := below } place item event after := by
    intro place after item event flight
    refine flight.moved inv.nodes one ?_ ?_ rfl rfl ?_
    · show below.count .afterChain = 0
      omega
    · simp [owedIdx, stack]
    · intro other here
      cases cursor.here.symm.trans here
      exact ⟨rfl, rfl⟩
  have shown : ∀ {items : List (QueueItem Item)} {trace : List Event},
      Shows s [] items trace → Shows { s with
        scan := { s.scan with
          nextChain := s.chainTree.next ch
          state := if s.chainTree.next ch = none then .runHelpers else s.scan.state }
        stack := below } [] items trace := by
    intro items trace shows
    have marks := shows.marks
    rw [stack] at marks
    exact ⟨marks, shows.items, shows.trace⟩
  cases token with
  | calling top | done top | removed top => exact absurd top (elsewhere _)
  | removing _ _ between => exact absurd between.settled (by omega)
  | resting _ _ between => exact absurd between.settled (by omega)
  | waiting shows timer flight => exact .waiting (shown shows) timer (flies flight)
  | begun shows timer flight =>
    refine .begun (shown shows) timer (flies flight) fun first _ => ?_
    subst first
    cases flight with
    | filters _ settled => omega

/-- `advance_scan` starts the timer. -/
theorem advance_afterBreak (inv : Invariant s) (stack : s.stack = .afterBreak :: below) :
    ∃ next, advance s = .ok next ∧ Invariant next := by
  obtain ⟨rounds, complete, token⟩ := inv.token
  refine ⟨{ s with stack := below, timerActive := true }, by simp [advance, stack], inv.conn,
    inv.work.replace [] stack rfl rfl rfl rfl rfl quiet_nil, inv.nodes.same rfl rfl, rounds,
    complete, ?_⟩
  cases token with
  | calling top | done top | removed top =>
    rw [stack] at top
    cases top
  | waiting shows | begun shows | removing shows =>
    have marks := shows.marks
    rw [stack] at marks
    cases marks
  | resting shows state between =>
    have marks := shows.marks
    have owed := between.owed
    have settled := between.settled
    unfold behind at settled
    rw [stack] at marks owed settled
    refine .resting ⟨?_, shows.items, shows.trace⟩ state ⟨between.idx, by simpa using owed,
      by simpa [behind] using settled⟩
    split at marks
    · cases marks
    · exact (List.cons.inj marks).2

/-- The queue and the scan go on without fault where `advance_scan` is not called early. -/
theorem advance_ok (inv : Invariant s) (goes : ¬ clientRuns s) (calm : ¬ Reenters s) :
    ∃ next, advance s = .ok next ∧ Invariant next := by
  match stack : s.stack with
  | [] | .execute _ _ :: _ | .completed :: _ | .removePin :: _ =>
    simp [clientRuns, stack] at goes
  | .processLoop :: below => exact advance_processLoop inv stack
  | .processed :: below => exact advance_processed inv stack
  | .isComplete :: below => exact advance_isComplete inv stack
  | .advanceScan :: below =>
    obtain ⟨next, step, inv'⟩ := advanceScan_ok inv stack calm
    exact ⟨next, by simpa [advance, stack] using step, inv'⟩
  | .afterHelper :: below => exact advance_afterHelper inv stack
  | .afterChain :: below => exact advance_afterChain inv stack
  | .afterBreak :: below => exact advance_afterBreak inv stack

end Advance

section Inputs

variable {s next : State}

/-- Code of another client is neither `scan_filters` nor `advance_scan`. -/
theorem otherRuns_elsewhere (other : otherRuns s) :
    ¬ FiltersRun s ∧ ∀ below, s.stack ≠ .advanceScan :: below := by
  constructor
  · rintro ⟨sent, below, stack⟩
    simp [otherRuns, stack] at other
  · intro below stack
    simp [otherRuns, stack] at other

/-- Another client may schedule an item. -/
theorem schedule_inv (inv : Invariant s) (other : otherRuns s) (hasCompleted : Bool) :
    Invariant (queueSchedule (.other hasCompleted) s s.stack) := by
  obtain ⟨stopped, elsewhere⟩ := otherRuns_elsewhere other
  obtain ⟨above, neutral, after⟩ := schedule_stack (.other hasCompleted) s s.stack
  have work : Work (queueSchedule (.other hasCompleted) s s.stack) := by
    cases inv.work with
    | idle _ quiet => exact inv.work.schedule quiet quiet _
    | awaiting _ quiet => exact inv.work.schedule quiet quiet _
    | executing sent queue flag stack quiet count =>
      have same : (queueSchedule (.other hasCompleted) s s.stack).stack = s.stack := by
        simp [queueSchedule, queue.1]
      exact .executing sent (queue.enqueue _) flag (same.symm ▸ stack) quiet count
  refine inv.same rfl work (inv.nodes.same rfl rfl) ?_ elsewhere
  refine sameScan [] above rfl after neutral_nil neutral rfl rfl ?_ rfl rfl
    fun runs => absurd runs stopped
  simp [requests, queueSchedule, Queue.enqueue, Item.scans]

/-- The running item may send its request. -/
theorem send_inv (inv : Invariant s) {item : Item} {below : List Frame}
    (stack : s.stack = .execute item false :: below) (sent : send s = .ok next) :
    Invariant next := by
  obtain ⟨c, conn⟩ := inv.conn
  have step : send s = .ok { s with
      queue := { s.queue with hasSentRequest := true }
      stack := .execute item true :: below
      outstanding := s.outstanding + 1 } := by
    simp [send, stack, Queue.queueGetConn, Queue.queueHasSentRequest, require, conn, bind,
      Except.bind, pure, Except.pure]
  rw [step] at sent
  cases sent
  have work : Work { s with
      queue := { s.queue with hasSentRequest := true }
      stack := .execute item true :: below
      outstanding := s.outstanding + 1 } := by
    cases inv.work with
    | idle _ quiet =>
      rw [stack] at quiet
      cases quiet _ List.mem_cons_self
    | awaiting _ quiet =>
      rw [stack] at quiet
      cases quiet _ List.mem_cons_self
    | executing sent queue flag shape quiet count =>
      rcases shape with shape | shape <;> rw [stack] at shape <;> cases shape
      exact .executing true queue rfl (.inl rfl) quiet (by simpa using count)
  refine inv.same rfl work (inv.nodes.same rfl rfl) ?_ ?_
  · refine sameScan [.execute item false] [.execute item true] stack rfl (neutral_nil.cons rfl)
      (neutral_nil.cons rfl) rfl rfl rfl rfl rfl ?_
    rintro ⟨sent, rest, runs⟩
    rw [stack] at runs
    cases runs
    exact ⟨true, below, rfl⟩
  · intro rest calls
    rw [stack] at calls
    cases calls

/-- The helper of a later index is not the first one. -/
theorem first_helper {index : Nat} (here : helpers[index]? = some .scanFilters) : index = 0 := by
  have bound : index < helpers.length := (List.getElem?_eq_some_iff.mp here).1
  have all : ∀ i : Fin 6, helpers[i.val]? = some .scanFilters → i.val = 0 := by decide
  exact all ⟨index, bound⟩ here

/-- `scan_filters` returns. -/
theorem ret_filters (inv : Invariant s) {sent : Bool} {below : List Frame}
    (stack : s.stack = .execute (.scanHelper .scanFilters) sent :: below)
    (work : Work { s with stack := below }) :
    Invariant { s with scan := { s.scan with state := .dumpChains }, stack := below } := by
  have quiet : Work { s with scan := { s.scan with state := .dumpChains }, stack := below } := by
    cases work with
    | idle queue quiet none resumes => exact .idle queue quiet none resumes
    | executing sent queue flag stack quiet count =>
      exact .executing sent queue flag stack quiet count
    | awaiting queue quiet one => exact .awaiting queue quiet one
  refine ⟨inv.conn, quiet, inv.nodes.same rfl rfl, ?_⟩
  obtain ⟨rounds, complete, token⟩ := inv.token
  refine ⟨rounds, complete, ?_⟩
  obtain ⟨rest, queue⟩ : ∃ rest, s.queue.Running (.scanHelper .scanFilters) rest := by
    cases inv.work with
    | idle _ quiet =>
      rw [stack] at quiet
      cases quiet _ List.mem_cons_self
    | awaiting _ quiet =>
      rw [stack] at quiet
      cases quiet _ List.mem_cons_self
    | executing _ queue _ shape =>
      rcases shape with shape | shape <;> rw [stack] at shape <;> cases shape
      exact ⟨_, queue⟩
  have first : requests s =
      ⟨.scanHelper .scanFilters, .sent⟩ :: rest.filter (·.data.scans) := by
    simp [requests, queue.2.1, Item.scans]
  have marks : ∀ {items : List (QueueItem Item)} {trace : List Event},
      Shows s [] items trace → below.filter Frame.scans = [] := by
    intro items trace shows
    have marks := shows.marks
    rw [stack] at marks
    exact marks
  cases token with
  | calling top | done top | removed top =>
    rw [stack] at top
    cases top
  | removing shows | resting shows =>
    have none := shows.items
    rw [first] at none
    cases none
  | waiting shows =>
    have one := shows.items
    rw [first] at one
    cases (List.cons.inj one).1
  | begun shows timer flight =>
    obtain ⟨same, _⟩ := begun_runs queue shows.items
    subst same
    cases flight with
    | filters idx settled =>
      refine .begun ⟨marks shows, shows.items, shows.trace⟩ timer (.filters ?_ ?_) fun _ _ => rfl
      · simpa [owedIdx, stack] using idx
      · simpa [behind, stack] using settled
    | helper _ _ _ positive here =>
      have zero := first_helper here
      omega

/-- The running callback may return. -/
theorem ret_inv (inv : Invariant s) (runs : clientRuns s) (inside : s.stack ≠ []) :
    Invariant (ret s) := by
  match stack : s.stack with
  | [] => exact absurd stack inside
  | .processLoop :: _ | .processed :: _ | .isComplete :: _ | .advanceScan :: _
  | .afterHelper :: _ | .afterChain :: _ | .afterBreak :: _ => simp [clientRuns, stack] at runs
  | .completed :: below =>
    have step : ret s = { s with stack := below } := by simp [ret, stack]
    rw [step]
    refine inv.same rfl (inv.work.replace [] stack rfl rfl rfl rfl rfl quiet_nil)
      (inv.nodes.same rfl rfl) ?_ ?_
    · refine sameScan [.completed] [] stack rfl (neutral_nil.cons rfl) neutral_nil rfl rfl rfl rfl
        rfl ?_
      rintro ⟨sent, rest, filters⟩
      rw [stack] at filters
      cases filters
    · intro rest calls
      rw [stack] at calls
      cases calls
  | .removePin :: below =>
    have step : ret s = { s with
        scan := { s.scan with state := .wait }, stack := .advanceScan :: below } := by
      simp [ret, stack]
    rw [step]
    refine ⟨inv.conn, inv.work.replace [.advanceScan] stack rfl rfl rfl rfl rfl
      (quiet_nil.push rfl), inv.nodes.same rfl rfl, ?_⟩
    obtain ⟨rounds, complete, token⟩ := inv.token
    refine ⟨rounds, complete, ?_⟩
    cases token with
    | calling top | done top | removed top =>
      rw [stack] at top
      cases top
    | waiting shows | begun shows | resting shows =>
      have marks := shows.marks
      rw [stack] at marks
      first
        | cases marks
        | (split at marks <;> cases marks)
    | removing shows timer between =>
      have marks := shows.marks
      have owed := between.owed
      have settled := between.settled
      unfold behind at settled
      rw [stack] at marks owed settled
      have rest : below.filter Frame.scans = [] := (List.cons.inj marks).2
      refine .removed rfl ⟨?_, shows.items, shows.trace⟩ timer rfl ⟨between.idx,
        by simpa using owed, by simpa [behind] using settled⟩
      simp [List.filter_cons, Frame.scans, rest]
  | .execute item sent :: below =>
    have work : Work { s with stack := below } := by
      cases inv.work with
      | idle _ quiet =>
        rw [stack] at quiet
        cases quiet _ List.mem_cons_self
      | awaiting _ quiet =>
        rw [stack] at quiet
        cases quiet _ List.mem_cons_self
      | executing sent queue flag shape quiet count =>
        rcases shape with shape | shape <;> rw [stack] at shape <;> cases shape
        exact .executing sent queue flag (.inr rfl) quiet count
    by_cases filters : item = .scanHelper .scanFilters
    · subst filters
      have step : ret s = { s with
          scan := { s.scan with state := .dumpChains }, stack := below } := by simp [ret, stack]
      rw [step]
      exact ret_filters inv stack work
    · have step : ret s = { s with stack := below } := by
        unfold ret
        rw [stack]
        split
        · rename_i same
          cases same
          exact absurd rfl filters
        · rename_i same
          cases same
        · rfl
      rw [step]
      refine inv.same rfl work (inv.nodes.same rfl rfl) ?_ ?_
      · refine sameScan [.execute item sent] [] stack rfl (neutral_nil.cons rfl) neutral_nil rfl rfl
          rfl rfl rfl ?_
        rintro ⟨sent', rest, running⟩
        rw [stack] at running
        cases running
        exact absurd rfl filters
      · intro rest calls
        rw [stack] at calls
        cases calls

/-- The event loop may learn of a completion. -/
theorem report_inv (inv : Invariant s) (loop : s.stack = []) (some : 0 < s.outstanding) :
    ∃ next, handleCompleted { s with outstanding := s.outstanding - 1 } [.isComplete] = .ok next ∧
      Invariant next := by
  cases inv.work with
  | idle _ _ none => omega
  | executing _ _ _ shape =>
    rcases shape with shape | shape <;> rw [loop] at shape <;> cases shape
  | awaiting queue quiet one =>
    have stopped : ¬ FiltersRun s := by
      rintro ⟨sent, rest, runs⟩
      rw [loop] at runs
      cases runs
    have elsewhere : ∀ below, s.stack ≠ .advanceScan :: below := by
      intro rest calls
      rw [loop] at calls
      cases calls
    rw [one]
    exact handleCompleted_ok inv queue [] loop neutral_nil quiet_nil stopped elsewhere .isComplete
      rfl rfl

/-- The timer may expire; the scan waits for it. -/
theorem timeout_inv (inv : Invariant s) (loop : s.stack = []) (active : s.timerActive = true) :
    ∃ next, timeout s = .ok next ∧ Invariant next := by
  obtain ⟨rounds, complete, token⟩ := inv.token
  cases token with
  | calling _ _ timer | waiting _ timer | begun _ timer | done _ _ timer | removing _ timer
  | removed _ _ timer =>
    rw [active] at timer
    cases timer
  | resting shows state between =>
    have step : timeout s = .ok { s with
        scan := { s.scan with state := .runHelpers }
        stack := [.advanceScan], timerActive := false, trace := s.trace ++ [.starts] } := by
      simp [timeout, require, state, bind, Except.bind, pure, Except.pure]
    refine ⟨_, step, inv.conn, ?_, inv.nodes.same rfl rfl, rounds, complete, ?_⟩
    · have quiet : Quiet s.stack := by
        rw [loop]
        exact quiet_nil
      refine inv.work.restack quiet rfl rfl (quiet_nil.push rfl) ?_
      rintro ⟨frame, member, _⟩
      rw [loop] at member
      cases member
    · refine @Token.calling _ _ .filters _ rfl ⟨rfl, shows.items, ?_⟩ rfl (.filters rfl ?_ rfl)
      · rw [Place.past, ← shows.trace]
      · simpa [owedIdx] using between.idx

/-- Every step keeps the invariant where `advance_scan` is not called early. -/
theorem step_inv {balancing : SearchTree.Balancing Chain} (inv : Invariant s) {input : Input}
    (enabled : Enabled s input) (calm : ¬ Reenters s)
    (stepped : step balancing s input = .ok next) : Invariant next := by
  have grown : Grows s next → otherRuns s → Invariant next := by
    intro grows other
    have conn : next.queue.conn = s.queue.conn := by
      cases grows with
      | same same => rw [same]
      | more _ _ _ others => rw [others]
    exact inv.same conn (grows.work inv.work) (grows.nodes inv.nodes) (grows.sameScan inv.nodes)
      (otherRuns_elsewhere other).2
  cases input with
  | advance =>
    obtain ⟨result, step, inv'⟩ := advance_ok inv enabled calm
    cases step.symm.trans stepped
    exact inv'
  | schedule hasCompleted =>
    cases stepped
    exact schedule_inv inv enabled hasCompleted
  | send =>
    obtain ⟨item, below, stack⟩ := enabled
    exact send_inv inv stack stepped
  | «return» =>
    cases stepped
    exact ret_inv inv enabled.1 enabled.2
  | report errno =>
    obtain ⟨result, step, inv'⟩ := report_inv inv enabled.1 enabled.2
    cases step.symm.trans stepped
    exact inv'
  | timeout =>
    obtain ⟨result, step, inv'⟩ := timeout_inv inv enabled.1 enabled.2
    cases step.symm.trans stepped
    exact inv'
  | gotChain chainNo => exact grown (filterGotChain_grows stepped) enabled
  | findAvailable minChainNo =>
    obtain ⟨⟨ret, result⟩, done, rest⟩ := bind_returned stepped
    cases rest
    exact grown (filterFindAvailableChainNo_grows done) enabled

end Inputs

section Runs

variable {balancing : SearchTree.Balancing Chain} {s next : State}

/-- The scan when its connection is open and the queue initialised. -/
def initialised (exitAfterFirstSync : Bool) : State where
  scan := { state := .runHelpers }
  queue := { conn := some 0 }
  stack := [.advanceScan]
  exitAfterFirstSync := exitAfterFirstSync
  trace := [.starts]

/-- The first step of a scan opens its connection and initialises the queue. -/
theorem first_step {exitAfterFirstSync : Bool} {input : Input}
    (enabled : Enabled { stack := [.advanceScan], exitAfterFirstSync, trace := [.starts] } input)
    (stepped : step balancing { stack := [.advanceScan], exitAfterFirstSync, trace := [.starts] }
      input = .ok next) : Invariant next := by
  have inv : Invariant (initialised exitAfterFirstSync) := by
    refine ⟨⟨0, rfl⟩, ?_, ⟨List.nodup_nil, fun ch member => (nomatch member)⟩, [],
      fun r member => (nomatch member), ?_⟩
    · exact .idle ⟨rfl, fun qi member => (nomatch member)⟩ (quiet_nil.push rfl) rfl
        fun some => absurd rfl some
    · exact @Token.calling _ _ .filters _ rfl ⟨rfl, rfl, rfl⟩ rfl (.filters rfl rfl rfl)
  have calm : ¬ Reenters (initialised exitAfterFirstSync) := by
    rintro ⟨below, stack, owed⟩
    cases stack
    simp at owed
  cases input with
  | advance =>
    obtain ⟨result, step, inv'⟩ := advanceScan_ok inv rfl calm
    cases step.symm.trans stepped
    exact inv'
  | schedule | gotChain | findAvailable => simp [Enabled, otherRuns] at enabled
  | send =>
    obtain ⟨item, below, stack⟩ := enabled
    cases stack
  | «return» => simp [Enabled, clientRuns] at enabled
  | report | timeout => cases enabled.1

/-- A run whose steps are all met by no early call starts, or keeps the invariant. -/
theorem reachable_inv (reached : Reachable balancing (fun s => ¬ Reenters s) s) :
    (∃ exitAfterFirstSync, s = { stack := [.advanceScan], exitAfterFirstSync, trace := [.starts] }) ∨
      Invariant s := by
  induction reached with
  | init exitAfterFirstSync => exact .inl ⟨exitAfterFirstSync, rfl⟩
  | step earlier input enabled calm stepped ih =>
    rcases ih with ⟨exitAfterFirstSync, rfl⟩ | inv
    · exact .inr (first_step enabled stepped)
    · exact .inr (step_inv inv enabled calm stepped)

/-- A place that a round can be at. -/
def Place.Sane : Place → Prop
  | .filters | .chains | .init => True
  | .chain r => r.Sane
  | .helper r index => r.Complete ∧ index ≤ 6

theorem Ready.sane {place : Place} (ready : Ready s place) : place.Sane := by
  cases ready with
  | filters | chains | init => trivial
  | chain _ _ _ cursor => exact cursor.sane
  | early _ _ sane => exact sane
  | helper _ _ _ _ bound complete => exact ⟨complete, bound⟩

theorem Flight.sane {place after : Place} {item : Item} {event : Event}
    (flight : Flight s place item event after) : after.Sane := by
  cases flight with
  | filters | chains => trivial
  | chain _ _ _ sane => exact sane
  | helper _ _ _ _ here complete =>
    have bound : _ < helpers.length := (List.getElem?_eq_some_iff.mp here).1
    exact ⟨complete, bound⟩

/-- Such a place is on the way to a complete round. -/
theorem Place.Sane.completes {place : Place} (sane : place.Sane) :
    ∃ r : Round, r.Complete ∧ place.past <+: r.history := by
  cases place with
  | filters => exact ⟨_, complete_empty, by decide⟩
  | chains => exact ⟨_, complete_empty, by decide⟩
  | init => exact ⟨_, complete_empty, by decide⟩
  | chain r =>
    obtain ⟨rest, complete⟩ := Round.Sane.completes sane
    refine ⟨_, complete, dumps rest ++ ran (helpers.drop 1) ++ [.removesPin], ?_⟩
    simp [Place.past, Round.history, dumps]
  | helper r index =>
    obtain ⟨complete, bound⟩ := sane
    refine ⟨r, complete, ran ((helpers.drop 1).drop (index - 1)) ++ [.removesPin], ?_⟩
    have run : ran ((helpers.drop 1).take (index - 1)) ++ ran ((helpers.drop 1).drop (index - 1)) =
        ran (helpers.drop 1) := by
      unfold ran
      rw [← List.flatMap_append, List.take_append_drop]
    simp only [Place.past, Round.history, ← run, List.append_assoc]

/-- What is observed is in rounds, whoever advances the scan. -/
theorem Token.inRounds {rounds : List Round} (whole : ∀ r ∈ rounds, r.Complete)
    (token : Token s (rounds.flatMap Round.history)) : InRounds s.trace := by
  have between : s.trace = rounds.flatMap Round.history → InRounds s.trace := by
    intro trace
    exact ⟨rounds, _, [], by rw [trace, List.append_nil], whole, complete_empty, List.nil_prefix⟩
  have within : ∀ {place : Place} {past : List Event}, place.Sane → past <+: place.past →
      s.trace = rounds.flatMap Round.history ++ past → InRounds s.trace := by
    intro place past sane start trace
    obtain ⟨r, complete, history⟩ := sane.completes
    exact ⟨rounds, r, past, trace, whole, complete, start.trans history⟩
  cases token with
  | calling _ shows _ ready => exact within ready.sane (List.prefix_refl _) shows.trace
  | waiting shows _ flight =>
    refine within flight.sane ?_ shows.trace
    rw [flight.past]
    exact List.prefix_append _ _
  | @begun place after item event shows _ flight =>
    refine within flight.sane ?_ (shows.trace.trans (List.append_assoc _ _ _))
    rw [flight.past]
    exact (List.prefix_append_right_inj _).mpr ⟨[.completes], rfl⟩
  | @done r _ _ shows _ _ _ complete =>
    have sane : (Place.helper r 6).Sane := ⟨complete, Nat.le_refl 6⟩
    exact within sane (List.prefix_refl _) shows.trace
  | removing shows => exact between shows.trace
  | removed _ shows => exact between shows.trace
  | resting shows => exact between shows.trace

/-- In the event loop the scan waits for its timer after whole rounds, or for the completion of a
request before one of its own items. -/
def Proceeds (s : State) : Prop :=
  (s.timerActive = true ∧ ∃ rounds : List Round,
    s.trace = rounds.flatMap Round.history ∧ ∀ r ∈ rounds, r.Complete) ∨
  (0 < s.outstanding ∧ ∃ qi ∈ s.queue.items, qi.data.scans = true)

theorem Invariant.proceeds (inv : Invariant s) (loop : s.stack = []) : Proceeds s := by
  obtain ⟨rounds, whole, token⟩ := inv.token
  have waits : ∀ {item : Item} {state : QueueItemState}, requests s = [⟨item, state⟩] →
      Proceeds s := by
    intro item state items
    have member : (⟨item, state⟩ : QueueItem Item) ∈ requests s := by
      rw [items]
      exact List.mem_singleton_self _
    obtain ⟨inside, mine⟩ := List.mem_filter.mp member
    rcases inv.work.event_loop loop with none | one
    · rw [none] at inside
      cases inside
    · exact .inr ⟨by omega, _, inside, mine⟩
  cases token with
  | calling top | done top | removed top =>
    rw [loop] at top
    cases top
  | waiting shows => exact waits shows.items
  | begun shows => exact waits shows.items
  | removing shows =>
    have marks := shows.marks
    rw [loop] at marks
    cases marks
  | resting shows =>
    have marks := shows.marks
    rw [loop] at marks
    split at marks
    · rename_i active
      exact .inl ⟨active, rounds, shows.trace, whole⟩
    · cases marks

end Runs

end FlowerRoute.Scanning
