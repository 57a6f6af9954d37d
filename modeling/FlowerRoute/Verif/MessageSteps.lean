import FlowerRoute.Verif.IndexSound

/-!
# What a message does

The handlers of the messages about links, neighbours and routes change the tables in the ways of
`Tables.Heard` and the routes in those of `Routing.Step`, and in no other.
-/

namespace FlowerRoute

open Outcome Index Routing

namespace Tables

/-- What a message does to the tables. -/
inductive Heard : Message → Tables → Tables → Prop
  /-- A link that is not known is gone already. -/
  | linkUnknown {t : Tables} {m : LinkMsg} : (∀ l, ¬ t.Knows m.ifindex l) →
      Heard (.link rtmDellink m) t t
  | linkNew {t : Tables} {nlmsgType : UInt16} {m : LinkMsg} {linked : SearchTree LinkId} :
      nlmsgType ≠ rtmDellink → (∀ l, ¬ t.Knows m.ifindex l) →
      t.linkTree.link (t.linkCompare m.ifindex) t.nextLink = .ok (some linked) →
      Heard (.link nlmsgType m) t (t.newLink m linked)
  /-- A link that a neighbour of a route refers to stays. -/
  | linkKept {t : Tables} {m : LinkMsg} {l : LinkId} : t.Knows m.ifindex l →
      (t.link l).obj.refcnt ≠ 0 → Heard (.link rtmDellink m) t (t.setLink l { t.link l with
        obj := { (t.link l).obj with state := .present } })
  | linkGone {t : Tables} {m : LinkMsg} {l : LinkId} : t.Knows m.ifindex l →
      (t.link l).obj.refcnt = 0 → Heard (.link rtmDellink m) t ((t.emptyLink l).freeLink l)
  | linkSet {t : Tables} {nlmsgType : UInt16} {m : LinkMsg} {l : LinkId} :
      nlmsgType ≠ rtmDellink → t.Knows m.ifindex l →
      Heard (.link nlmsgType m) t (t.setLink l ((t.link l).set m))
  | neighUnknown {t : Tables} {nlmsgType : UInt16} {ifindex : Int} {af : UInt8}
      {addr : Option SomeInAddr} {lladdr : Option Lladdr} : (∀ l, ¬ t.Knows ifindex l) →
      Heard (.neigh nlmsgType ifindex af addr lladdr) t t
  | neighAbsent {t : Tables} {ifindex : Int} {af : UInt8} {addr : Option SomeInAddr}
      {lladdr : Option Lladdr} {l : LinkId} {afAddr : AfAddr} : t.Knows ifindex l →
      buildAfAddr af addr 0 = .ok afAddr → (∀ n, ¬ t.Lists l afAddr n) →
      Heard (.neigh rtmDelneigh ifindex af addr lladdr) t t
  | neighNew {t : Tables} {nlmsgType : UInt16} {ifindex : Int} {af : UInt8}
      {addr : Option SomeInAddr} {lladdr : Option Lladdr} {l : LinkId} {afAddr : AfAddr}
      {linked : SearchTree NeighId} : nlmsgType ≠ rtmDelneigh → t.Knows ifindex l →
      buildAfAddr af addr 0 = .ok afAddr → (∀ n, ¬ t.Lists l afAddr n) →
      (t.link l).fdb.link (t.neighCompare afAddr) t.nextNeigh = .ok (some linked) →
      Heard (.neigh nlmsgType ifindex af addr lladdr) t
        (t.newNeigh l afAddr (lladdrSet lladdr) linked)
  | neighGone {t : Tables} {ifindex : Int} {af : UInt8} {addr : Option SomeInAddr}
      {lladdr : Option Lladdr} {l : LinkId} {afAddr : AfAddr} {n : NeighId} :
      t.Knows ifindex l → buildAfAddr af addr 0 = .ok afAddr → t.Lists l afAddr n →
      Heard (.neigh rtmDelneigh ifindex af addr lladdr) t (t.reapNeigh n)
  | neighSet {t : Tables} {nlmsgType : UInt16} {ifindex : Int} {af : UInt8}
      {addr : Option SomeInAddr} {lladdr : Option Lladdr} {l : LinkId} {afAddr : AfAddr}
      {n : NeighId} : nlmsgType ≠ rtmDelneigh → t.Knows ifindex l →
      buildAfAddr af addr 0 = .ok afAddr → t.Lists l afAddr n →
      Heard (.neigh nlmsgType ifindex af addr lladdr) t
        (t.setNeigh n { t.neigh n with lladdr := lladdrSet lladdr })
  | routeUnknown {t : Tables} {nlmsgType : UInt16} {oif : Int} {af : UInt8}
      {nh : Option SomeInAddr} {dst : AfAddr} : (∀ l, ¬ t.Knows oif l) →
      Heard (.route nlmsgType oif af nh dst) t t
  | routeKnown {t : Tables} {nlmsgType : UInt16} {oif : Int} {af : UInt8}
      {nh : Option SomeInAddr} {dst : AfAddr} {l : LinkId} {afAddr : AfAddr} {n : NeighId} :
      t.Knows oif l → buildAfAddr af nh 0 = .ok afAddr → t.Lists l afAddr n →
      Heard (.route nlmsgType oif af nh dst) t t
  /-- A gateway that is not in the table gets a neighbour that never will be. -/
  | routeHeld {t : Tables} {nlmsgType : UInt16} {oif : Int} {af : UInt8}
      {nh : Option SomeInAddr} {dst : AfAddr} {l : LinkId} {afAddr : AfAddr} :
      t.Knows oif l → buildAfAddr af nh 0 = .ok afAddr → (∀ n, ¬ t.Lists l afAddr n) →
      Heard (.route nlmsgType oif af nh dst) t (t.getNeigh l afAddr)

/-- A message leaves the mode alone. -/
theorem Heard.mode {t t' : Tables} {message : Message} (heard : Heard message t t')
    (sound : t.Sound) : t'.mode = t.mode := by
  cases heard with
  | linkUnknown | neighUnknown | neighAbsent | routeUnknown | routeKnown => rfl
  | linkNew | linkKept | linkSet | neighNew | neighSet | routeHeld => rfl
  | linkGone known _ => exact (sound.emptied known.live).mode
  | neighGone known _ listed =>
    exact (emptied_reapNeigh _ ((sound.tables _ known.live).own _ listed.inside).2).mode

/-- A neighbour gets another address. -/
theorem Sound.setLladdr {t : Tables} (sound : t.Sound) (n : NeighId) (lladdr : Lladdr) :
    (t.setNeigh n { t.neigh n with lladdr }).Sound := by
  refine sound.setNeigh (sound.neighFresh n) fun l live => ?_
  refine (sound.tables l live).congr fun p _ _ => ?_
  by_cases here : p = n
  · subst here
    rw [neigh_setNeigh_same]
    exact ⟨rfl, rfl, rfl⟩
  · rw [neigh_setNeigh_ne _ _ here]
    exact ⟨rfl, rfl, rfl⟩

/-- A message keeps the tables in order. -/
theorem Sound.heard {t t' : Tables} {message : Message} (sound : t.Sound)
    (heard : Heard message t t') : t'.Sound := by
  cases heard with
  | linkUnknown | neighUnknown | neighAbsent | routeUnknown | routeKnown => exact sound
  | linkNew _ _ done => exact sound.newLink done
  | linkKept known _ => exact sound.setLink rfl rfl (by simp) rfl
  | linkGone known _ => exact sound.freeLink known.live
  | linkSet _ known => exact sound.setLink rfl rfl (sound.linkState _ known.live) rfl
  | neighNew _ known _ _ done => exact sound.newNeigh known.live done
  | neighGone known _ listed => exact sound.reapNeigh known.live listed.inside
  | neighSet _ _ _ _ => exact sound.setLladdr _ _
  | routeHeld known _ _ => exact sound.getNeigh _ known.live

end Tables

section Handlers

variable {w : World} {c : Calls} {d : Unrefs}

/-- A handler led to tables that its message allows. -/
theorem Reaching.heard {t : Tables} {message : Message} {result : Except Fault World}
    (reaching : Reaching t w result) (heard : Tables.Heard message w.tables t) :
    Returns (fun w' => Tables.Heard message w.tables w'.tables ∧ w.routing.Reaps w'.routing)
      result :=
  reaching.mono fun w' moves => by
    have tables : w'.tables = t := moves.1
    exact ⟨tables ▸ heard, moves.2⟩

theorem objLinkWeakRef_unmoved (l : LinkId) (w : World) : Unmoved w (objLinkWeakRef l w) :=
  returns_bind fun _ _ => index_setLink w l fun link => by
    simp only [ObjLink.entry, objWeakRef]
    split <;> rfl

/-- `obj_link_lookup` finds exactly the live link of an index. -/
theorem objLinkLookup_finds (sound : w.tables.Sound) (ifindex : Int) :
    ∃ found, objLinkLookup ifindex w = .ok found ∧
      ∀ l, found = some l ↔ w.tables.Knows ifindex l := by
  rw [objLinkLookup_eq]
  exact sound.find_link ifindex

/-- `obj_neigh_fdb_lookup` finds exactly the neighbour of an address in the table of a link. -/
theorem objNeighFdbLookup_finds (sound : w.tables.Sound) {l : LinkId}
    (live : (w.tables.link l).obj.kind = .link) (addr : AfAddr) :
    ∃ found, objNeighFdbLookup l addr w = .ok found ∧
      ∀ n, found = some n ↔ w.tables.Lists l addr n := by
  rw [objNeighFdbLookup_eq live]
  exact sound.find_neigh live addr

/-- A new neighbour that is in no table yet. -/
theorem tables_objNeighAlloc (neigh : ObjNeigh) (w : World) :
    (objNeighAlloc neigh w).2.tables =
      w.tables.addNeigh { neigh with obj := { kind := .neigh }, targets := [] } := by
  have neighs := w.neighs.view_alloc { neigh with obj := { kind := .neigh } } ObjNeigh.entry
  simp only [World.tables, objNeighAlloc, Tables.addNeigh, Tables.setNeigh, neighs]
  rfl

/-- The comparisons with the neighbours of a table do not depend on the next one. -/
theorem Tables.Sound.neighCompare_addNeigh {t : Tables} (sound : t.Sound) {l : LinkId}
    (live : (t.link l).obj.kind = .link) (neigh : ObjNeigh) (addr : AfAddr) :
    ∀ n ∈ (t.link l).fdb.toList,
      t.neighCompare addr n = (t.addNeigh neigh).neighCompare addr n := fun n inside => by
  have other : n ≠ t.nextNeigh := fun same => sound.next_loose live (same ▸ inside)
  simp only [Tables.neighCompare,
    show (t.addNeigh neigh).neigh n = t.neigh n from Tables.neigh_setNeigh_ne _ _ other]

/-- A message makes a neighbour. -/
theorem objNeighMake_reaching (sound : w.tables.Sound) (normal : w.mode = .normal) {l : LinkId}
    (live : (w.tables.link l).obj.kind = .link) {addr : AfAddr} (lladdr : Lladdr)
    {linked : SearchTree NeighId} (done : (w.tables.link l).fdb.link (w.tables.neighCompare addr)
      w.tables.nextNeigh = .ok (some linked)) :
    Reaching (w.tables.newNeigh l addr lladdr linked) w (do
      let (n, w) := objNeighAlloc { addr, link := some l, lladdr } w
      let w ← objLinkWeakRef l w
      objNeighNew d n w) := by
  let neigh : ObjNeigh := { obj := { kind := .neigh }, link := some l, addr, lladdr }
  let made := (objNeighAlloc { addr, link := some l, lladdr } w).2
  have tables : made.tables = w.tables.addNeigh neigh := tables_objNeighAlloc _ w
  refine Reaching.after (u := made) rfl ?_
  refine Reaching.bind (objLinkWeakRef_unmoved l made).moving.reaching fun w₁ same => ?_
  have tables₁ : w₁.tables = w.tables.addNeigh neigh := same.trans tables
  have new : w₁.tables.neigh w.neighs.next = neigh := by
    rw [tables₁]
    exact Tables.neigh_setNeigh_same ..
  have mode : w₁.mode = .normal := (congrArg Tables.mode tables₁).trans normal
  have done₁ : (w₁.tables.link l).fdb.link (w₁.tables.neighCompare
      (w₁.tables.neigh w.neighs.next).addr) w.neighs.next = .ok (some linked) := by
    rw [new, tables₁]
    exact (SearchTree.link_congr _ (sound.neighCompare_addNeigh live neigh addr)).symm.trans done
  refine (objNeighNew_reaching mode (by rw [new]) (by rw [new]) done₁).congr ?_
  rw [new, tables₁]
  simp only [Tables.newNeigh, Tables.addNeigh, Tables.setNeigh, Tables.setLink]
  rw [show w.neighs.next = w.tables.nextNeigh from rfl, Function.update_idem]

/-- `obj_neigh_netlink_update`. -/
theorem objNeighNetlinkUpdate_heard (writing : Writing c) (moving : d.Moving)
    (sound : w.tables.Sound) (normal : w.mode = .normal) (nlmsgType : UInt16) (ifindex : Int)
    (af : UInt8) (addr : Option SomeInAddr) (lladdr : Option Lladdr) :
    Returns (fun w' => Tables.Heard (.neigh nlmsgType ifindex af addr lladdr) w.tables w'.tables ∧
      w.routing.Reaps w'.routing)
      (objNeighNetlinkUpdate c d nlmsgType ifindex af addr lladdr w) := by
  obtain ⟨found, search, finds⟩ := objLinkLookup_finds sound ifindex
  rw [objNeighNetlinkUpdate, search, ok_bind]
  cases found with
  | none => exact ⟨.neighUnknown fun l known => (nomatch (finds l).mpr known), .refl _⟩
  | some l =>
    have known := (finds l).mp rfl
    refine returns_bind fun afAddr built => ?_
    obtain ⟨found, search, finds⟩ := objNeighFdbLookup_finds sound known.live afAddr
    rw [search, ok_bind]
    cases found with
    | none =>
      have absent : ∀ n, ¬ w.tables.Lists l afAddr n := fun n listed => by
        cases (finds n).mpr listed
      rw [objNeighFdbLookup_eq known.live] at search
      obtain ⟨linked, done⟩ := SearchTree.link_of_find_none w.tables.nextNeigh search
      by_cases gone : nlmsgType = rtmDelneigh
      · subst gone
        exact ⟨.neighAbsent known built absent, .refl _⟩
      · dsimp only
        rw [if_neg gone]
        exact (objNeighMake_reaching sound normal known.live (lladdrSet lladdr) done).heard
          (.neighNew gone known built absent done)
    | some n =>
      have listed := (finds n).mp rfl
      have installed := ((sound.tables l known.live).own n listed.inside).1
      by_cases gone : nlmsgType = rtmDelneigh
      · subst gone
        exact (objNeighDelete_reaching moving (by rw [installed])).heard
          (.neighGone known built listed)
      · dsimp only
        rw [if_neg gone]
        refine returns_bind fun neigh followed => ?_
        obtain ⟨-, rfl⟩ := neigh_ok followed
        have set : Tables.Heard (.neigh nlmsgType ifindex af addr lladdr) w.tables _ :=
          .neighSet gone known built listed
        split
        · next same =>
          rw [show lladdrSet lladdr = (w.tables.neigh n).lladdr from same.symm,
            Tables.setNeigh_neigh] at set
          exact ⟨set, .refl _⟩
        · let updated := w.setNeigh n fun neigh => { neigh with lladdr := lladdrSet lladdr }
          have tables : updated.tables = w.tables.setNeigh n
            { w.tables.neigh n with lladdr := lladdrSet lladdr } := tables_setNeigh w n _
          have state : (updated.tables.neigh n).obj.state = .installed := by
            rw [tables, Tables.neigh_setNeigh_same, installed]
          have reaching := objNeighUpdate_reaching (w := updated) (d := d) writing normal state
          exact (Reaching.after (w := w) rfl reaching).heard (tables ▸ set)

/-- A new neighbour holds its link. -/
theorem objLinkRef_new (sound : w.tables.Sound) {l : LinkId}
    (live : (w.tables.link l).obj.kind = .link) (neigh : ObjNeigh) :
    Returns (fun w' => w'.tables = (w.tables.addNeigh
        { neigh with obj := { kind := .neigh }, targets := [] }).setLink l { w.tables.link l with
          obj := { (w.tables.link l).obj with refcnt := (w.tables.link l).obj.refcnt + 1 } } ∧
      w'.routing = w.routing) (objLinkRef l (objNeighAlloc neigh w).2) := by
  refine returns_bind fun link _ => ⟨(tables_setLink _ l _).trans ?_, rfl⟩
  have alive : (w.links.cell l).obj.state ≠ .zombie := sound.linkState l live
  have entry : ({ w.links.cell l with obj := objRef (w.links.cell l).obj } : ObjLink).entry =
      { w.tables.link l with
        obj := { (w.tables.link l).obj with refcnt := (w.tables.link l).obj.refcnt + 1 } } := by
    simp only [objRef, alive, false_and, if_false]
    rfl
  rw [tables_objNeighAlloc]
  exact congrArg _ entry

/-- `obj_neigh_netlink_get`. -/
theorem objNeighNetlinkGet_heard (sound : w.tables.Sound) (nlmsgType : UInt16) (oif : Int)
    (af : UInt8) (nh : Option SomeInAddr) (dst : AfAddr) :
    Returns (fun result => Tables.Heard (.route nlmsgType oif af nh dst) w.tables result.2.tables ∧
      result.2.routing = w.routing) (objNeighNetlinkGet oif af nh w) := by
  obtain ⟨found, search, finds⟩ := objLinkLookup_finds sound oif
  rw [objNeighNetlinkGet, search, ok_bind]
  cases found with
  | none => exact ⟨.routeUnknown fun l known => (nomatch (finds l).mpr known), rfl⟩
  | some l =>
    have known := (finds l).mp rfl
    refine returns_bind fun afAddr built => ?_
    obtain ⟨found, search, finds⟩ := objNeighFdbLookup_finds sound known.live afAddr
    rw [search, ok_bind]
    cases found with
    | some n => exact ⟨.routeKnown known built ((finds n).mp rfl), rfl⟩
    | none =>
      have absent : ∀ n, ¬ w.tables.Lists l afAddr n := fun n listed => by
        cases (finds n).mpr listed
      have held : Tables.Heard (.route nlmsgType oif af nh dst) w.tables _ :=
        .routeHeld known built absent
      refine Ends.bind (objLinkRef_new sound known.live { addr := afAddr, link := some l })
        fun w' moves => ⟨?_, moves.2⟩
      rw [moves.1]
      exact held

/-- A message makes a link. -/
theorem objLinkMake_reaching (sound : w.tables.Sound) {m : LinkMsg} {linked : SearchTree LinkId}
    (done : w.tables.linkTree.link (w.tables.linkCompare m.ifindex) w.tables.nextLink =
      .ok (some linked)) :
    Reaching (w.tables.newLink m linked) w (objLinkInsert w.links.next { w with
      links := w.links.alloc (ObjLink.set m {
        ifindex := m.ifindex, obj := { kind := .link, state := .installed } })
      linkCnt := w.linkCnt + 1 }) := by
  let link : ObjLink := ObjLink.set m {
    ifindex := m.ifindex, obj := { kind := .link, state := .installed } }
  let made : World := { w with links := w.links.alloc link, linkCnt := w.linkCnt + 1 }
  have tables : made.tables = { w.tables with
      link := Function.update w.tables.link w.links.next link
      nextLink := w.links.next + 1
      linkCnt := w.linkCnt + 1 } := by
    have links := w.links.view_alloc link ObjLink.entry
    simp only [World.tables, made, links]
    rfl
  have new : made.tables.link w.links.next = link := by
    rw [tables]
    exact Function.update_self ..
  have same : ∀ l ∈ w.tables.linkTree.toList,
      w.tables.linkCompare m.ifindex l = made.tables.linkCompare m.ifindex l := fun l inside => by
    have other : l ≠ w.links.next := fun here =>
      absurd (sound.linkFresh l ((sound.links l).mp inside)) (by rw [here]; exact Nat.lt_irrefl _)
    rw [tables]
    simp only [Tables.linkCompare, Function.update_of_ne other]
  have done' : made.tables.linkTree.link (made.tables.linkCompare
      (made.tables.link w.links.next).ifindex) w.links.next = .ok (some linked) := by
    rw [new]
    exact (SearchTree.link_congr _ same).symm.trans done
  refine Reaching.after (u := made) rfl ((objLinkInsert_reaching done').congr ?_)
  rw [tables]
  rfl

/-- `obj_link_netlink_update`. -/
theorem objLinkNetlinkUpdate_heard (writing : Writing c) (moving : d.Moving)
    (sound : w.tables.Sound) (nlmsgType : UInt16) (m : LinkMsg) :
    Returns (fun w' => Tables.Heard (.link nlmsgType m) w.tables w'.tables ∧
      w.routing.Reaps w'.routing) (objLinkNetlinkUpdate c d nlmsgType m w) := by
  obtain ⟨found, search, finds⟩ := objLinkLookup_finds sound m.ifindex
  rw [objLinkNetlinkUpdate, search, ok_bind]
  cases found with
  | none =>
    have absent : ∀ l, ¬ w.tables.Knows m.ifindex l := fun l known => by
      cases (finds l).mpr known
    rw [objLinkLookup_eq] at search
    obtain ⟨linked, done⟩ := SearchTree.link_of_find_none w.tables.nextLink search
    by_cases gone : nlmsgType = rtmDellink
    · subst gone
      exact ⟨.linkUnknown absent, .refl _⟩
    · dsimp only
      rw [if_neg gone]
      exact (objLinkMake_reaching sound done).heard (.linkNew gone absent done)
  | some l =>
    have known := (finds l).mp rfl
    by_cases gone : nlmsgType = rtmDellink
    · subst gone
      by_cases held : (w.tables.link l).obj.refcnt = 0
      · have table := sound.tables l known.live
        exact (objLinkDelete_reaching moving held (nodup_of_order table.order) fun n inside => by
          rw [(table.own n inside).1]).heard (.linkGone known held)
      · exact (objLinkDelete_kept held).heard (.linkKept known held)
    · dsimp only
      rw [if_neg gone]
      refine returns_bind fun link followed => returns_require fun _ => ?_
      obtain ⟨-, rfl⟩ := link_ok followed
      have set : Tables.Heard (.link nlmsgType m) w.tables _ := .linkSet gone known
      split
      · next same =>
        have entry : (w.tables.link l).set m = w.tables.link l :=
          congrArg ObjLink.entry same.symm
        rw [entry, Tables.setLink_link] at set
        exact ⟨set, .refl _⟩
      · let updated := w.setLink l (ObjLink.set m)
        have tables : updated.tables = w.tables.setLink l ((w.tables.link l).set m) :=
          tables_setLink w l _
        have reaching := (objLinkUpdate_unmoved writing l updated).moving.reaching
        exact (Reaching.after (w := w) rfl reaching).heard (tables ▸ set)

/-- The comparison with the routes of the tree. -/
theorem routeCompare_eq (dst : AfAddr) (w : World) :
    routeCompare dst w = w.routing.compare dst := by
  funext this
  rw [routeCompare, World.route, follow, Routing.compare]
  by_cases live : (w.routes.cell this).obj.kind = .route
  · rw [if_pos live, if_pos (show (w.routing.route this).1 = _ from live)]
    rfl
  · rw [if_neg live, if_neg (show (w.routing.route this).1 ≠ _ from live)]
    rfl

/-- `obj_route_lookup` finds exactly the live route of a destination. -/
theorem objRouteLookup_finds (sound : w.routing.Sound) (dst : AfAddr) :
    ∃ found, objRouteLookup dst w = .ok found ∧
      ∀ r, found = some r ↔ w.routing.route r = (.route, dst) := by
  rw [objRouteLookup, routeCompare_eq]
  exact sound.find_route dst

/-- `obj_route_insert` for a route whose place is found. -/
theorem objRouteInsert_ok {r : RouteId} {linked : SearchTree RouteId}
    (done : w.routing.routeTree.link (w.routing.compare (w.routing.route r).2) r =
      .ok (some linked)) :
    Returns (fun w' => w'.tables = w.tables ∧ w'.routing =
      { w.routing with routeTree := w.tables.balancing.insertColor r linked })
      (objRouteInsert r w) := by
  refine returns_bind fun route followed => ?_
  obtain ⟨-, rfl⟩ := route_ok followed
  have inserted : w.routeTree.link (routeCompare (w.routes.cell r).dst w) r =
      .ok (some linked) := by
    rw [routeCompare_eq]
    exact done
  rw [inserted]
  exact ⟨rfl, rfl⟩

/-- A route that is made, before it enters the tree. -/
def Routing.makeRoute (i : Routing) (dst : AfAddr) : Routing :=
  { i with
    route := Function.update i.route i.nextRoute (.route, dst)
    nextRoute := i.nextRoute + 1
    routeCnt := i.routeCnt + 1 }

theorem routing_alloc (w : World) (dst : AfAddr) :
    ({ w with
      routes := w.routes.alloc { obj := { kind := .route }, dst }
      routeCnt := w.routeCnt + 1 } : World).routing = w.routing.makeRoute dst := by
  have routes := w.routes.view_alloc { obj := { kind := .route }, dst } ObjRoute.entry
  simp only [World.routing, routes]
  rfl

/-- A new route enters the tree. -/
theorem objRouteInsert_new (sound : w.routing.Sound) {dst : AfAddr}
    (search : w.routing.routeTree.find (w.routing.compare dst) = .ok none) {w₁ : World}
    (same : w₁.index = ⟨w.tables, w.routing.makeRoute dst⟩) :
    Returns (fun w' => w'.tables = w.tables ∧ w.routing.Step w'.routing)
      (objRouteInsert w.routing.nextRoute w₁) := by
  obtain ⟨linked, done⟩ := SearchTree.link_of_find_none w.routing.nextRoute search
  have tables : w₁.tables = w.tables := congrArg Index.tables same
  have routing : w₁.routing = w.routing.makeRoute dst := congrArg Index.routing same
  have compares : ∀ r ∈ w.routing.routeTree.toList,
      w.routing.compare dst r = (w.routing.makeRoute dst).compare dst r := fun r inside => by
    have other : r ≠ w.routing.nextRoute := fun here =>
      absurd (sound.routeFresh r ((sound.routes r).mp inside)) (by rw [here]; exact Nat.lt_irrefl _)
    simp only [Routing.compare, Routing.makeRoute, Function.update_of_ne other]
  have key : (w₁.routing.route w.routing.nextRoute).2 = dst := by
    rw [routing]
    simp only [Routing.makeRoute, Function.update_self]
  have done₁ : w₁.routing.routeTree.link (w₁.routing.compare
      (w₁.routing.route w.routing.nextRoute).2) w.routing.nextRoute = .ok (some linked) := by
    rw [key, routing]
    exact (SearchTree.link_congr _ compares).symm.trans done
  refine (objRouteInsert_ok done₁).mono fun w' ran => ⟨ran.1.trans tables, ?_⟩
  rw [ran.2, routing, tables]
  exact .new dst linked done

/-- What follows a route's installation sees the same index. -/
theorem objRouteInstall_then (writing : Writing c) {r : RouteId} {condition : Prop}
    [Decidable condition] {f : World → Except Fault World} {post : World → Prop}
    (rest : ∀ w', w'.index = w.index → Returns post (f w')) :
    Returns post (if condition then objRouteInstall c r w >>= f else pure w >>= f) := by
  split
  · exact Ends.bind (Returns.unmoved (objRouteInstall_writes writing r w)) rest
  · exact rest w rfl

/-- `obj_route_netlink_update`. -/
theorem objRouteNetlinkUpdate_step (writing : Writing c) (moving : d.Moving)
    (sound : w.routing.Sound) (nlmsgType : UInt16) (t : TargetId) (dst : AfAddr) :
    Returns (fun w' => w'.tables = w.tables ∧ w.routing.Step w'.routing)
      (objRouteNetlinkUpdate c d nlmsgType t dst w) := by
  have reaps : ∀ {w' : World}, Moves w.index w'.index →
      w'.tables = w.tables ∧ w.routing.Step w'.routing := fun moves => ⟨moves.1, .reaps moves.2⟩
  obtain ⟨found, search, finds⟩ := objRouteLookup_finds sound dst
  rw [objRouteNetlinkUpdate]
  split
  · rw [search, ok_bind]
    cases found with
    | none => exact ⟨rfl, .reaps (.refl _)⟩
    | some r => exact (objRouteDelete_moving writing moving r w).mono fun _ => reaps
  · refine returns_bind fun got gotten => ?_
    rw [objRouteGet, search, ok_bind] at gotten
    cases found with
    | some r =>
      cases gotten
      refine returns_bind fun route _ => ?_
      refine Ends.bind (objRouteRetarget_moving writing moving r t w) fun w₁ moves => ?_
      refine returns_bind fun route' _ => returns_bind fun ok _ => ?_
      refine objRouteInstall_then writing fun w₂ same => ?_
      have last : w.index.Moves w₂.index := by
        rw [same]
        exact moves
      have installed := index_setRoute (f := fun route =>
        { route with obj := { route.obj with state := .installed } }) w₂ r fun _ => rfl
      dsimp only
      rw [if_neg (by decide)]
      split
      · rw [← installed] at last
        exact reaps last
      · exact reaps last
    | none =>
      cases gotten
      let made : World := { w with
        routes := w.routes.alloc { obj := { kind := .route }, dst }
        routeCnt := w.routeCnt + 1 }
      have routing : made.routing = w.routing.makeRoute dst := routing_alloc w dst
      have target : (made.routes.cell w.routes.next).target = none :=
        congrArg ObjRoute.target (Heap.cell_alloc_same ..)
      rw [objRouteLookup, routeCompare_eq] at search
      have linked : Unmoved made (objRouteRetarget c d w.routes.next t made) := by
        refine returns_bind fun route followed => ?_
        obtain ⟨-, rfl⟩ := route_ok followed
        rw [target]
        exact objTargetLinkRoute_unmoved writing t _ made
      refine returns_bind fun _ _ => Ends.bind linked fun w₁ first => ?_
      refine returns_bind fun _ _ => returns_bind fun ok _ => ?_
      refine objRouteInstall_then writing fun w₂ second => ?_
      have installed := index_setRoute (f := fun route =>
        { route with obj := { route.obj with state := .installed } }) w₂ w.routes.next fun _ => rfl
      dsimp only
      rw [if_pos rfl]
      refine objRouteInsert_new sound search (installed.trans (second.trans (first.trans ?_)))
      rw [← routing]
      rfl

/-- `decode_route`. -/
theorem decodeRoute_heard (writing : Writing c) (moving : d.Moving) (sound : w.tables.Sound)
    (routes : w.routing.Sound) (nlmsgType : UInt16) (oif : Int) (af : UInt8)
    (nh : Option SomeInAddr) (dst : AfAddr) :
    Returns (fun w' => Tables.Heard (.route nlmsgType oif af nh dst) w.tables w'.tables ∧
      w.routing.Step w'.routing) (decodeRoute c d nlmsgType oif af nh dst w) := by
  refine Ends.bind (objNeighNetlinkGet_heard sound nlmsgType oif af nh dst)
    fun ⟨n, w₁⟩ ⟨heard, routing⟩ => ?_
  cases n with
  | none => exact ⟨heard, routing ▸ .reaps (.refl _)⟩
  | some n =>
    refine Ends.bind (objTargetGetUnipath_unmoved n w₁) fun ⟨t, w₂⟩ same => ?_
    have tables₂ : w₂.tables = w₁.tables := congrArg Index.tables same
    have routing₂ : w₂.routing = w.routing := (congrArg Index.routing same).trans routing
    have step := objRouteNetlinkUpdate_step (w := w₂) writing moving (routing₂ ▸ routes) nlmsgType
      t dst
    refine step.mono fun w' ran => ⟨?_, routing₂ ▸ ran.2⟩
    rw [ran.1, tables₂]
    exact heard

/-- What a message does, at every bound on the depth of calls. -/
theorem handle_heard (sound : w.tables.Sound) (routes : w.routing.Sound) (normal : w.mode = .normal)
    (depth : Nat) (message : Message) :
    Returns (fun w' => Tables.Heard message w.tables w'.tables ∧ w.routing.Step w'.routing)
      (handle depth message w) := by
  have writing := calls_writing depth
  have moving := unrefs_moving writing depth
  cases message with
  | link nlmsgType m =>
    exact (objLinkNetlinkUpdate_heard writing moving sound nlmsgType m).mono fun _ ran =>
      ⟨ran.1, .reaps ran.2⟩
  | neigh nlmsgType ifindex af addr lladdr =>
    exact (objNeighNetlinkUpdate_heard writing moving sound normal nlmsgType ifindex af addr
      lladdr).mono fun _ ran => ⟨ran.1, .reaps ran.2⟩
  | route nlmsgType oif af nh dst =>
    exact decodeRoute_heard writing moving sound routes nlmsgType oif af nh dst

end Handlers

end FlowerRoute
