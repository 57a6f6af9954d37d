import FlowerRoute.Lib.RedBlack
import FlowerRoute.Verif.ObjectRuns

/-!
# The cost of lookups

With the rebalancing of a red-black tree, the trees of links and routes and the tables of
neighbours are balanced in every state that messages lead to. So the loop of a lookup comes to no
more nodes than twice the logarithm of the number of objects, whatever order the messages come in.
-/

namespace FlowerRoute

open Outcome

namespace Tables

/-- The tree of links and the tables of neighbours are balanced. -/
structure Level (t : Tables) : Prop where
  balancing : t.balancing = SearchTree.redBlack
  linkTree : ∃ n, t.linkTree.Balanced false n
  fdb : ∀ l, ∃ n, (t.link l).fdb.Balanced false n

namespace Level

variable {t t' : Tables}

/-- A link changes, with a balanced table. -/
theorem setLink (level : t.Level) (l : LinkId) {link : ObjLink}
    (fdb : ∃ n, link.fdb.Balanced false n) : (t.setLink l link).Level where
  balancing := level.balancing
  linkTree := level.linkTree
  fdb l' := by
    by_cases here : l' = l
    · subst here
      rw [link_setLink_same]
      exact fdb
    · rw [link_setLink_ne _ _ here]
      exact level.fdb l'

/-- A neighbour changes. -/
theorem setNeigh (level : t.Level) (n : NeighId) (neigh : ObjNeigh) : (t.setNeigh n neigh).Level :=
  ⟨level.balancing, level.linkTree, level.fdb⟩

/-- A neighbour is made. -/
theorem addNeigh (level : t.Level) (neigh : ObjNeigh) : (t.addNeigh neigh).Level :=
  ⟨level.balancing, level.linkTree, level.fdb⟩

/-- A neighbour is reaped. -/
theorem reapNeigh (level : t.Level) (n : NeighId) : (t.reapNeigh n).Level := by
  rw [Tables.reapNeigh]
  split
  · exact level.setNeigh n _
  · next l _ =>
    apply Level.setNeigh
    apply Level.setNeigh
    apply level.setLink
    obtain ⟨m, balanced⟩ := level.fdb l
    rw [level.balancing]
    exact balanced.erase n

/-- So are several. -/
theorem reapNeighs (level : t.Level) (items : List NeighId) :
    (items.foldl Tables.reapNeigh t).Level := by
  induction items generalizing t with
  | nil => exact level
  | cons n items ih => exact ih (level.reapNeigh n)

/-- A link is reaped. -/
theorem freeLink (level : t.Level) (l : LinkId) : ((t.emptyLink l).freeLink l).Level := by
  have emptied : (t.emptyLink l).Level := by
    apply reapNeighs
    exact level.setLink l (level.fdb l)
  have freed : ((t.emptyLink l).setLink l { (t.emptyLink l).link l with
      obj := { kind := .unknown, state := .zombie } }).Level :=
    emptied.setLink l (emptied.fdb l)
  obtain ⟨m, balanced⟩ := emptied.linkTree
  constructor
  case balancing => exact emptied.balancing
  case linkTree =>
    have erased := balanced.erase l
    rw [← emptied.balancing] at erased
    exact erased
  case fdb => exact freed.fdb

/-- A new link enters the tree. -/
theorem newLink (level : t.Level) (sound : t.Sound) {m : LinkMsg} {linked : SearchTree LinkId}
    (done : t.linkTree.link (t.linkCompare m.ifindex) t.nextLink = .ok (some linked)) :
    (t.newLink m linked).Level := by
  have fresh : t.nextLink ∉ t.linkTree.toList := fun inside =>
    absurd (sound.linkFresh _ ((sound.links _).mp inside)) (Nat.lt_irrefl _)
  have nodup := SearchTree.nodup_link done fresh (nodup_of_order sound.linkOrder)
  obtain ⟨n, balanced⟩ := level.linkTree
  constructor
  case balancing => exact level.balancing
  case linkTree =>
    have inserted := balanced.insertColor nodup done
    rw [← level.balancing] at inserted
    exact inserted
  case fdb =>
    intro l
    by_cases same : l = t.nextLink
    · subst same
      rw [show (t.newLink m linked).link t.nextLink = _ from Function.update_self ..]
      exact ⟨0, .leaf⟩
    · rw [show (t.newLink m linked).link l = t.link l from Function.update_of_ne same ..]
      exact level.fdb l

/-- A new neighbour enters a table. -/
theorem newNeigh (level : t.Level) (sound : t.Sound) {l : LinkId} {addr : AfAddr}
    {lladdr : Lladdr} {linked : SearchTree NeighId} (live : (t.link l).obj.kind = .link)
    (done : (t.link l).fdb.link (t.neighCompare addr) t.nextNeigh = .ok (some linked)) :
    (t.newNeigh l addr lladdr linked).Level := by
  have nodup := SearchTree.nodup_link done (sound.next_loose live)
    (nodup_of_order (sound.tables l live).order)
  obtain ⟨n, balanced⟩ := level.fdb l
  apply (level.addNeigh _).setLink
  rw [level.balancing]
  exact balanced.insertColor nodup done

/-- A message keeps the balance. -/
theorem heard {message : Message} (level : t.Level) (sound : t.Sound)
    (heard : Heard message t t') : t'.Level := by
  cases heard with
  | linkUnknown | neighUnknown | neighAbsent | routeUnknown | routeKnown => exact level
  | linkNew _ _ done => exact level.newLink sound done
  | linkKept _ _ => exact level.setLink _ (level.fdb _)
  | linkGone _ _ => exact level.freeLink _
  | linkSet _ _ => exact level.setLink _ (level.fdb _)
  | neighNew _ known _ _ done => exact level.newNeigh sound known.live done
  | neighGone _ _ _ => exact level.reapNeigh _
  | neighSet _ _ _ _ => exact level.setNeigh _ _
  | routeHeld _ _ _ => exact (level.addNeigh _).setLink _ (level.fdb _)

end Level

end Tables

namespace Routing

/-- The tree of routes is balanced. -/
structure Level (i : Routing) : Prop where
  balancing : i.balancing = SearchTree.redBlack
  routeTree : ∃ n, i.routeTree.Balanced false n

namespace Level

variable {i i' : Routing}

/-- A route leaves the tree. -/
theorem reap (level : i.Level) (reap : Reap i i') : i'.Level := by
  obtain ⟨r, live⟩ := reap
  obtain ⟨n, balanced⟩ := level.routeTree
  have erased := balanced.erase r
  rw [← level.balancing] at erased
  exact ⟨level.balancing, erased⟩

/-- So do several. -/
theorem reaps (level : i.Level) (reaps : Reaps i i') : i'.Level := by
  induction reaps with
  | refl => exact level
  | tail _ last ih => exact ih.reap last

/-- A message keeps the balance. -/
theorem step (level : i.Level) (sound : i.Sound) (step : Step i i') : i'.Level := by
  cases step with
  | reaps reaps => exact level.reaps reaps
  | new dst linked done =>
    have fresh : i.nextRoute ∉ i.routeTree.toList := fun inside =>
      absurd (sound.routeFresh _ ((sound.routes _).mp inside)) (Nat.lt_irrefl _)
    have nodup := SearchTree.nodup_link done fresh (nodup_of_order sound.routeOrder)
    obtain ⟨n, balanced⟩ := level.routeTree
    have inserted := balanced.insertColor nodup done
    rw [← level.balancing] at inserted
    exact ⟨level.balancing, inserted⟩

end Level

end Routing

/-- A whole run keeps all of it balanced. -/
theorem Monitored.level {known : KnownLinks} {s s' : Owners} {messages : List Message}
    (run : Monitored s messages s') (indexed : s.world.Indexed known)
    (tables : s.world.tables.Level) (routing : s.world.routing.Level) :
    s'.world.tables.Level ∧ s'.world.routing.Level := by
  induction run with
  | start => exact ⟨tables, routing⟩
  | @event s' s'' _ _ _ _ ran ih =>
    have same := ChainEvent.run_index ran
    have tables' : s''.world.tables = s'.world.tables := congrArg Index.tables same
    have routing' : s''.world.routing = s'.world.routing := congrArg Index.routing same
    rw [tables', routing']
    exact ih
  | @message s' messages message depth world before _ ran ih =>
    have now := before.indexed indexed
    have heard := (handle_heard now.tables now.routing now.mode depth message).of_ok ran
    exact ⟨ih.1.heard now.tables heard.1, ih.2.step now.routing heard.2⟩

/-- `obj_link_lookup`, whose loop may come to so many nodes. -/
def objLinkLookupWithin (bound : Nat) (ifindex : Int) (w : World) :
    Option (Except Fault (Option LinkId)) :=
  w.linkTree.findWithin (fun this => return ifindex - (← w.link this).ifindex) bound

/-- `obj_neigh_fdb_lookup`, whose loop may come to so many nodes. -/
def objNeighFdbLookupWithin (bound : Nat) (link : ObjLink) (addr : AfAddr) (w : World) :
    Option (Except Fault (Option NeighId)) :=
  link.fdb.findWithin (fun this => return addr.memcmp (← w.neigh this).addr) bound

/-- `obj_route_lookup`, whose loop may come to so many nodes. -/
def objRouteLookupWithin (bound : Nat) (dst : AfAddr) (w : World) :
    Option (Except Fault (Option RouteId)) :=
  w.routeTree.findWithin (routeCompare dst w) bound

/-- In every run with red-black trees, the loops of the lookups of links, neighbours and routes
come to no more nodes than twice the logarithm of the number of links, of neighbours in the table
and of routes. -/
theorem lookups_logarithmic {w : World} (unlinked : w.Unlinked)
    (redBlack : w.balancing = SearchTree.redBlack) {messages : List Message} {s : Owners}
    (run : Monitored { world := w } messages s) :
    (∀ ifindex, objLinkLookupWithin (2 * Nat.log 2 (s.world.linkCnt + 1)) ifindex s.world =
      some (objLinkLookup ifindex s.world)) ∧
    (∀ l link, s.world.link l = .ok link → ∀ addr,
      objNeighFdbLookupWithin (2 * Nat.log 2 (link.fdb.toList.length + 1)) link addr s.world =
        some (objNeighFdbLookup l addr s.world)) ∧
    ∀ dst, objRouteLookupWithin (2 * Nat.log 2 (s.world.routeCnt + 1)) dst s.world =
      some (objRouteLookup dst s.world) := by
  have indexed := run.indexed unlinked.indexed
  have tables : w.tables.Level := by
    refine ⟨redBlack, ⟨0, ?_⟩, fun l => ⟨0, ?_⟩⟩
    · rw [show w.tables.linkTree = _ from unlinked.linkTree]
      exact .leaf
    · rw [show (w.tables.link l).fdb = (w.links.cell l).fdb from rfl, unlinked.links]
      exact .leaf
  have routing : w.routing.Level := by
    refine ⟨redBlack, ⟨0, ?_⟩⟩
    rw [show w.routing.routeTree = _ from unlinked.routeTree]
    exact .leaf
  obtain ⟨tables', routing'⟩ := run.level unlinked.indexed tables routing
  refine ⟨fun ifindex => ?_, fun l link followed addr => ?_, fun dst => ?_⟩
  · obtain ⟨n, balanced⟩ := tables'.linkTree
    have cnt : s.world.linkCnt = s.world.linkTree.toList.length := indexed.tables.linkCnt
    rw [objLinkLookupWithin, cnt]
    exact balanced.findWithin _
  · obtain ⟨live, rfl⟩ := link_ok followed
    obtain ⟨n, balanced⟩ := tables'.fdb l
    rw [objNeighFdbLookupWithin, objNeighFdbLookup, followed, ok_bind]
    exact balanced.findWithin _
  · obtain ⟨n, balanced⟩ := routing'.routeTree
    have cnt : s.world.routeCnt = s.world.routeTree.toList.length := indexed.routing.routeCnt
    rw [objRouteLookupWithin, cnt]
    exact balanced.findWithin _

/-- Seven interfaces that come in the order of their indexes. -/
def ascendingLinks : List Message :=
  (List.range 7).map fun i => .link rtmNewlink {
    ifindex := i + 1
    lladdr := none
    lowerIfindex := 0
    vlanId := 0
    mtu := 1500
    ifname := none }

/-- The last of them is found within six nodes. -/
theorem lookups_logarithmic_ascending : ∃ s,
    Owners.monitor 2 ascendingLinks { world := { blankWorld with
      balancing := SearchTree.redBlack } } = .ok s ∧
      objLinkLookupWithin 6 7 s.world = some (objLinkLookup 7 s.world) := by
  let w : World := { blankWorld with balancing := SearchTree.redBlack }
  have unlinked : w.Unlinked := ⟨rfl, rfl, rfl, rfl, rfl, rfl, rfl, rfl⟩
  have counted : (Owners.monitor 2 ascendingLinks { world := w }).map (·.world.linkCnt) =
      .ok 7 := by
    decide +kernel
  cases ran : Owners.monitor 2 ascendingLinks { world := w } with
  | error e =>
    rw [ran] at counted
    cases counted
  | ok s =>
    rw [ran] at counted
    have seven : s.world.linkCnt = 7 := Except.ok.inj counted
    have run := Owners.monitor_run (by decide) ran
    have cost := (lookups_logarithmic unlinked rfl run).1 7
    rw [seven] at cost
    exact ⟨s, rfl, cost⟩

end FlowerRoute
