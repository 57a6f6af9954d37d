import FlowerRoute.Model.Daemon
import FlowerRoute.Verif.ObjectIndex

/-!
# What a message does to the tables

The effect of the functions on neighbours and links on the tables, and with it the ways in which
a message of the monitor can change them.
-/

namespace FlowerRoute

open Outcome Index Routing

namespace Tables

/-- A freed neighbour keeps nothing of its last state. -/
theorem reapNeigh_setNeigh (t : Tables) (n : NeighId) (obj : ObjCore) :
    (t.setNeigh n { t.neigh n with obj }).reapNeigh n = t.reapNeigh n := by
  simp only [reapNeigh, neigh_setNeigh_same]
  cases link : (t.neigh n).link with
  | none => simp only [freeNeigh, setNeigh_setNeigh, neigh_setNeigh_same, link]
  | some l =>
    simp only [freeNeigh, unlinkNeigh, setNeigh, setLink, Function.update_idem,
      Function.update_self]

/-- A neighbour is referred to and installed. -/
def hold (t : Tables) (n : NeighId) : Tables :=
  t.setNeigh n { t.neigh n with
    obj := { (t.neigh n).obj with
      refcnt := (t.neigh n).obj.refcnt + 1
      state := .installed } }

/-- The comparisons do not depend on that. -/
theorem neighCompare_hold (t : Tables) (n : NeighId) (addr : AfAddr) :
    (t.hold n).neighCompare addr = t.neighCompare addr := by
  funext p
  by_cases here : p = n
  · subst here
    simp only [neighCompare, hold, neigh_setNeigh_same]
  · simp only [neighCompare, hold, neigh_setNeigh_ne _ _ here]

/-- A new neighbour that a message reports. -/
def newNeigh (t : Tables) (l : LinkId) (addr : AfAddr) (lladdr : Lladdr)
    (linked : SearchTree NeighId) : Tables :=
  let neigh : ObjNeigh :=
    { obj := { kind := .neigh, state := .installed }, link := some l, addr, lladdr }
  (t.addNeigh neigh).setLink l
    { t.link l with fdb := t.balancing.insertColor t.nextNeigh linked }

/-- A new neighbour that a route goes through; it holds its link. -/
def getNeigh (t : Tables) (l : LinkId) (addr : AfAddr) : Tables :=
  (t.addNeigh { obj := { kind := .neigh }, link := some l, addr }).setLink l
    { t.link l with obj := { (t.link l).obj with refcnt := (t.link l).obj.refcnt + 1 } }

/-- A new link. -/
def newLink (t : Tables) (m : LinkMsg) (linked : SearchTree LinkId) : Tables :=
  { t with
    link := Function.update t.link t.nextLink (ObjLink.set m {
      ifindex := m.ifindex, obj := { kind := .link, state := .installed } })
    nextLink := t.nextLink + 1
    linkTree := t.balancing.insertColor t.nextLink linked
    linkCnt := t.linkCnt + 1 }

/-- Reaping one neighbour leaves the others alone. -/
theorem neigh_reapNeigh_ne (t : Tables) {n p : NeighId} (other : p ≠ n) :
    (t.reapNeigh n).neigh p = t.neigh p := by
  rw [reapNeigh]
  cases (t.neigh n).link with
  | none => exact neigh_setNeigh_ne _ _ other
  | some l => exact (neigh_setNeigh_ne _ _ other).trans (neigh_setNeigh_ne _ _ other)

/-- So does reaping several. -/
theorem neigh_reapNeighs_ne {items : List NeighId} {p : NeighId} (other : p ∉ items) (t : Tables) :
    (items.foldl reapNeigh t).neigh p = t.neigh p := by
  induction items generalizing t with
  | nil => rfl
  | cons n items ih =>
    rw [List.mem_cons, not_or] at other
    exact (ih other.2 _).trans (t.neigh_reapNeigh_ne other.1)

/-- The neighbours of a link are reaped. -/
def emptyLink (t : Tables) (l : LinkId) : Tables :=
  (t.link l).fdb.toList.foldl reapNeigh (t.setLink l { t.link l with
    obj := { (t.link l).obj with state := .zombie }, ifname := none })

/-- A link is freed. -/
def freeLink (t : Tables) (l : LinkId) : Tables :=
  { t.setLink l { t.link l with obj := { kind := .unknown, state := .zombie } } with
    linkTree := t.balancing.erase l t.linkTree
    linkCnt := t.linkCnt - 1 }

end Tables

section Calls

variable {w : World} {c : Calls} {d : Unrefs} {t t' : Tables}

theorem Moving.reaching {result : Except Fault World} (moving : Moving w result) :
    Reaching w.tables w result := moving

/-- A call after another. -/
theorem Reaching.bind {first : Except Fault World} {next : World → Except Fault World}
    (head : Reaching t w first) (tail : ∀ w', w'.tables = t → Reaching t' w' (next w')) :
    Reaching t' w (first >>= next) :=
  Ends.bind head fun w' moves => (tail w' moves.1).mono fun _ more =>
    ⟨more.1, moves.2.trans more.2⟩

/-- A call after a write that leaves the routes alone. -/
theorem Reaching.after {u : World} {result : Except Fault World} (same : u.routing = w.routing)
    (tail : Reaching t u result) : Reaching t w result :=
  tail.mono fun _ more => ⟨more.1, same ▸ more.2⟩

/-- The tables that a call leads to, written in another way. -/
theorem Reaching.congr {result : Except Fault World} (reaching : Reaching t w result)
    (same : t = t') : Reaching t' w result := same ▸ reaching

/-- A call that ends in a world with the same routes. -/
theorem reaching_ok {w' : World} (tables : w'.tables = t) (routing : w'.routing = w.routing) :
    Reaching t w (.ok w') := ⟨tables, routing ▸ Reaps.refl _⟩

section Neighbours

/-- An object whose origin is gone is reaped as soon as nothing refers to it. -/
theorem objIsReapable_present (mode : ObjOperatingMode) {c : ObjCore} (present : c.state = .present)
    (free : c.refcnt = 0) : objIsReapable mode c = true := by
  cases mode <;> simp [objIsReapable, present, free]

theorem objNeighUnlink_reaching (n : NeighId) (l : LinkId) (w : World) :
    Reaching (w.tables.unlinkNeigh n l) w (objNeighUnlink n l w) := by
  refine returns_bind fun _ _ => ?_
  have unlinked : Returns (fun w' => w'.routing = w.routing ∧
      w'.tables = w.tables.setLink l { w.tables.link l with
        fdb := w.balancing.erase n (w.links.cell l).fdb })
      (objLinkWeakUnref l (w.setLink l fun link =>
        { link with fdb := w.balancing.erase n link.fdb })) := by
    refine returns_bind fun link followed => returns_bind fun obj counted => ?_
    obtain ⟨-, rfl⟩ := link_ok followed
    obtain rfl := objWeakUnref_ok counted
    refine ⟨rfl, (tables_setLink _ l _).trans ?_⟩
    rw [tables_setLink, Tables.setLink_setLink]
    simp only [World.setLink, Heap.cell_modify_same]
    rfl
  refine Ends.bind unlinked fun w' after => ?_
  obtain ⟨routing, tables⟩ := after
  refine reaching_ok ((tables_setNeigh w' n _).trans ?_) routing
  have entry : ({ w'.neighs.cell n with link := none } : ObjNeigh).entry =
      { w'.tables.neigh n with link := none } := rfl
  rw [entry, tables]
  rfl

/-- The end of `obj_neigh_reap`, where the neighbour has no link any more. -/
def objNeighForget (n : NeighId) (w : World) : Except Fault World := do
  let neigh ← w.neigh n
  let obj ← objFree neigh.obj
  let w := w.setNeigh n fun neigh => { neigh with obj }
  return { w with neighCnt := ← countDown w.neighCnt }

theorem objNeighForget_reaching (n : NeighId) (w : World) :
    Reaching (w.tables.freeNeigh n) w (objNeighForget n w) := by
  refine returns_bind fun neigh followed => returns_bind fun obj freed =>
    returns_bind fun cnt _ => ?_
  obtain ⟨-, rfl⟩ := neigh_ok followed
  obtain ⟨rfl, state, refcnt, -⟩ := objFree_ok freed
  have freed := tables_setNeigh w n fun neigh =>
    { neigh with obj := { (w.neighs.cell n).obj with kind := .unknown } }
  have entry : ({ w.neighs.cell n with
      obj := { (w.neighs.cell n).obj with kind := .unknown } } : ObjNeigh).entry =
      { w.tables.neigh n with obj := { kind := .unknown, state := .zombie } } := by
    simp only [ObjNeigh.entry, state, refcnt]
    rfl
  exact reaching_ok (freed.trans (congrArg _ entry)) rfl

theorem objNeighReap_reaching (moving : d.Moving) (n : NeighId) (w : World) :
    Reaching (w.tables.reapNeigh n) w (objNeighReap d n w) := by
  refine returns_bind fun neigh followed => returns_require fun _ => ?_
  obtain ⟨-, rfl⟩ := neigh_ok followed
  have zombie := tables_setNeigh w n fun neigh =>
    { neigh with obj := { neigh.obj with state := .zombie } }
  refine Reaching.after (u := w.setNeigh n fun neigh =>
    { neigh with obj := { neigh.obj with state := .zombie } }) rfl ?_
  refine Reaching.bind (Moving.loop _ _ fun w t _ => moving.objTargetUnref t w).reaching
    fun w₁ same => ?_
  have reaped : w₁.tables.reapNeigh n = w.tables.reapNeigh n := by
    rw [same, zombie]
    exact w.tables.reapNeigh_setNeigh n _
  refine returns_bind fun neigh followed => ?_
  obtain ⟨live, rfl⟩ := neigh_ok followed
  refine Reaching.congr ?_ reaped
  cases link : (w₁.neighs.cell n).link with
  | none =>
    refine (objNeighForget_reaching n w₁).congr ?_
    rw [Tables.reapNeigh, show (w₁.tables.neigh n).link = none from link]
  | some l =>
    refine Reaching.bind (objNeighUnlink_reaching n l w₁) fun w₂ unlinked => ?_
    refine (objNeighForget_reaching n w₂).congr ?_
    rw [unlinked, Tables.reapNeigh, show (w₁.tables.neigh n).link = some l from link]

/-- Deleting a neighbour that nothing refers to. -/
theorem objNeighDelete_reaching (moving : d.Moving) {n : NeighId}
    (free : (w.tables.neigh n).obj.refcnt = 0) :
    Reaching (w.tables.reapNeigh n) w (objNeighDelete d n w) := by
  refine returns_bind fun neigh followed => ?_
  obtain ⟨-, rfl⟩ := neigh_ok followed
  dsimp only
  split
  · refine Reaching.after (u := w.setNeigh n fun neigh =>
      { neigh with obj := { (w.neighs.cell n).obj with state := .present } }) rfl ?_
    refine (objNeighReap_reaching moving n _).congr ?_
    rw [tables_setNeigh]
    exact w.tables.reapNeigh_setNeigh n _
  · next kept =>
    exact absurd (objIsReapable_present w.mode (c := { (w.neighs.cell n).obj with
      state := .present }) rfl free) kept

/-- A neighbour loses its link, and nothing refers to it. -/
theorem objNeighLinkGone_reaching (moving : d.Moving) {n : NeighId}
    (free : (w.tables.neigh n).obj.refcnt = 0) :
    Reaching (w.tables.reapNeigh n) w (objNeighLinkGone d n w) := by
  refine returns_bind fun neigh followed => ?_
  obtain ⟨live, rfl⟩ := neigh_ok followed
  cases link : (w.neighs.cell n).link with
  | none => trivial
  | some l =>
    refine Reaching.bind (objNeighUnlink_reaching n l w) fun w₁ unlinked => ?_
    have neigh : w₁.tables.neigh n = { w.tables.neigh n with link := none } := by
      rw [unlinked]
      exact Tables.neigh_setNeigh_same ..
    refine (objNeighDelete_reaching moving (by rw [neigh]; exact free)).congr ?_
    rw [Tables.reapNeigh, neigh, Tables.reapNeigh, show (w.tables.neigh n).link = some l from link,
      unlinked]

/-- A neighbour that is installed stays so when its only reference is released. -/
theorem objNeighUnref_reaching {n : NeighId} (normal : w.mode = .normal)
    (installed : (w.tables.neigh n).obj.state = .installed) :
    Reaching (w.tables.setNeigh n { w.tables.neigh n with
      obj := { (w.tables.neigh n).obj with refcnt := (w.tables.neigh n).obj.refcnt - 1 } }) w
      (objNeighUnref d n w) := by
  refine returns_bind fun neigh followed => returns_bind fun obj counted => ?_
  obtain ⟨live, rfl⟩ := neigh_ok followed
  obtain ⟨rfl, -⟩ := objUnref_ok counted
  have state : (w.neighs.cell n).obj.state = .installed := installed
  dsimp only
  rw [if_neg (by simp [World.setNeigh, objIsReapable, normal, state])]
  exact reaching_ok (tables_setNeigh w n _) rfl

/-- A neighbour is referred to once more. -/
theorem objNeighRef_reaching {n : NeighId} (alive : (w.tables.neigh n).obj.state ≠ .zombie) :
    Reaching (w.tables.setNeigh n { w.tables.neigh n with
      obj := { (w.tables.neigh n).obj with refcnt := (w.tables.neigh n).obj.refcnt + 1 } }) w
      (objNeighRef n w) := by
  refine returns_bind fun neigh followed => ?_
  have alive : (w.neighs.cell n).obj.state ≠ .zombie := alive
  have entry : ({ w.neighs.cell n with obj := objRef (w.neighs.cell n).obj } : ObjNeigh).entry =
      { w.tables.neigh n with
        obj := { (w.tables.neigh n).obj with refcnt := (w.tables.neigh n).obj.refcnt + 1 } } := by
    simp only [objRef, alive, false_and, if_false]
    rfl
  exact reaching_ok ((tables_setNeigh w n _).trans (congrArg _ entry)) rfl

/-- The comparison with the neighbours of a table. -/
theorem neigh_memcmp (addr : AfAddr) (w : World) :
    (fun this => do return addr.memcmp (← w.neigh this).addr) = w.tables.neighCompare addr := by
  funext this
  rw [World.neigh, follow, Tables.neighCompare]
  by_cases live : (w.neighs.cell this).obj.kind = .neigh
  · rw [if_pos live, if_pos (show (w.tables.neigh this).obj.kind = _ from live)]
    rfl
  · rw [if_neg live, if_neg (show (w.tables.neigh this).obj.kind ≠ _ from live)]
    rfl

/-- A search in the table of a link. -/
theorem objNeighFdbLookup_eq {l : LinkId} (live : (w.tables.link l).obj.kind = .link)
    (addr : AfAddr) : objNeighFdbLookup l addr w =
      (w.tables.link l).fdb.find (w.tables.neighCompare addr) := by
  have followed : w.link l = .ok (w.links.cell l) := if_pos live
  rw [objNeighFdbLookup, followed, neigh_memcmp]
  rfl

/-- An insertion into the table of a link. -/
theorem objNeighFdbInsert_reaching {n : NeighId} {l : LinkId} {linked : SearchTree NeighId}
    (link : (w.tables.neigh n).link = some l)
    (done : (w.tables.link l).fdb.link (w.tables.neighCompare (w.tables.neigh n).addr) n =
      .ok (some linked)) :
    Reaching (w.tables.setLink l { w.tables.link l with
      fdb := w.tables.balancing.insertColor n linked }) w (objNeighFdbInsert n w) := by
  refine returns_bind fun neigh followed => ?_
  obtain ⟨-, rfl⟩ := neigh_ok followed
  rw [show (w.neighs.cell n).link = some l from link]
  refine returns_bind fun found followed => ?_
  obtain ⟨-, rfl⟩ := link_ok followed
  have inserted : (w.links.cell l).fdb.link (fun this =>
      do return (w.neighs.cell n).addr.memcmp (← w.neigh this).addr) n = .ok (some linked) := by
    rw [neigh_memcmp]
    exact done
  rw [inserted]
  exact reaching_ok (tables_setLink w l _) rfl

theorem objNeighNotifyTargets_unmoved (writing : Writing c) (n : NeighId) (w : World) :
    Unmoved w (objNeighNotifyTargets c n w) := by
  refine returns_bind fun neigh _ => ?_
  exact ends_foldlM _ _ rfl fun t _ w₁ same =>
    (objTargetNeighUpdate_unmoved writing t w₁).mono fun _ later => later.trans same

/-- What `obj_neigh_new` and `obj_neigh_update` have in common. -/
theorem objNeighHold_reaching {n : NeighId} {f : World → Except Fault World}
    (alive : (w.tables.neigh n).obj.state ≠ .zombie)
    (rest : ∀ w', w'.tables = w.tables.hold n → Reaching t w' (f w')) :
    Reaching t w (do
      let w ← objNeighRef n w
      f (w.setNeigh n fun neigh =>
        { neigh with obj := { neigh.obj with state := .installed } })) := by
  refine Reaching.bind (objNeighRef_reaching alive) fun w₁ counted => ?_
  refine Reaching.after (u := w₁.setNeigh n fun neigh =>
    { neigh with obj := { neigh.obj with state := .installed } }) rfl (rest _ ?_)
  have entry : ({ w₁.neighs.cell n with
      obj := { (w₁.neighs.cell n).obj with state := .installed } } : ObjNeigh).entry =
      { w₁.tables.neigh n with obj := { (w₁.tables.neigh n).obj with state := .installed } } := rfl
  rw [tables_setNeigh, entry, counted, Tables.neigh_setNeigh_same, Tables.setNeigh_setNeigh]
  rfl

/-- An update leaves the tables alone. -/
theorem objNeighUpdate_reaching (writing : Writing c) {n : NeighId} (normal : w.mode = .normal)
    (installed : (w.tables.neigh n).obj.state = .installed) :
    Reaching w.tables w (objNeighUpdate c d n w) := by
  have alive : (w.tables.neigh n).obj.state ≠ .zombie := by simp [installed]
  refine objNeighHold_reaching (f := fun w => do
    let w ← objNeighNotifyTargets c n w
    objNeighUnref d n w) alive fun w₁ held => ?_
  have notified := (objNeighNotifyTargets_unmoved writing n w₁).moving.reaching
  refine Reaching.bind notified fun w₂ same => ?_
  have tables : w₂.tables = w.tables.hold n := same.trans held
  have neigh : w₂.tables.neigh n = _ :=
    (congrArg (Tables.neigh · n) tables).trans (w.tables.neigh_setNeigh_same n _)
  have mode : w₂.mode = .normal := (congrArg Tables.mode tables).trans normal
  refine (objNeighUnref_reaching mode (by rw [neigh])).congr ?_
  rw [neigh, tables, Tables.hold, Tables.setNeigh_setNeigh]
  simp only [Nat.add_sub_cancel, ← installed]
  exact w.tables.setNeigh_neigh n

/-- A new neighbour enters the table of its link. -/
theorem objNeighNew_reaching {n : NeighId} {l : LinkId} {linked : SearchTree NeighId}
    (normal : w.mode = .normal) (new : (w.tables.neigh n).obj = { kind := .neigh })
    (link : (w.tables.neigh n).link = some l)
    (done : (w.tables.link l).fdb.link (w.tables.neighCompare (w.tables.neigh n).addr) n =
      .ok (some linked)) :
    Reaching ((w.tables.setLink l { w.tables.link l with
      fdb := w.tables.balancing.insertColor n linked }).setNeigh n { w.tables.neigh n with
        obj := { kind := .neigh, state := .installed } }) w (objNeighNew d n w) := by
  have alive : (w.tables.neigh n).obj.state ≠ .zombie := by simp [new]
  refine objNeighHold_reaching (f := fun w => do
    let w ← objNeighFdbInsert n w
    objNeighUnref d n w) alive fun w₁ held => ?_
  have neigh : w₁.tables.neigh n = _ :=
    (congrArg (Tables.neigh · n) held).trans (w.tables.neigh_setNeigh_same n _)
  have insert : (w₁.tables.link l).fdb.link (w₁.tables.neighCompare (w₁.tables.neigh n).addr) n =
      .ok (some linked) := by
    rw [neigh, held, Tables.neighCompare_hold]
    exact done
  refine Reaching.bind (objNeighFdbInsert_reaching (by rw [neigh]; exact link) insert)
    fun w₂ inserted => ?_
  have neigh' : w₂.tables.neigh n = w₁.tables.neigh n := by rw [inserted]; rfl
  have mode : w₂.mode = .normal := by
    refine Eq.trans ?_ normal
    rw [show w₂.mode = w₂.tables.mode from rfl, inserted]
    exact congrArg Tables.mode held
  refine (objNeighUnref_reaching mode (by rw [neigh', neigh])).congr ?_
  rw [neigh', neigh, inserted, held, new]
  simp only [Tables.hold, Tables.setNeigh, Tables.setLink, Function.update_idem]

end Neighbours

section Links

/-- The comparison with the links of the tree. -/
theorem link_difference (ifindex : Int) (w : World) :
    (fun this => do return ifindex - (← w.link this).ifindex) = w.tables.linkCompare ifindex := by
  funext this
  rw [World.link, follow, Tables.linkCompare]
  by_cases live : (w.links.cell this).obj.kind = .link
  · rw [if_pos live, if_pos (show (w.tables.link this).obj.kind = _ from live)]
    rfl
  · rw [if_neg live, if_neg (show (w.tables.link this).obj.kind ≠ _ from live)]
    rfl

/-- A search in the tree of links. -/
theorem objLinkLookup_eq (ifindex : Int) (w : World) :
    objLinkLookup ifindex w = w.tables.linkTree.find (w.tables.linkCompare ifindex) := by
  rw [objLinkLookup, link_difference]
  rfl

/-- An insertion into the tree of links. -/
theorem objLinkInsert_reaching {l : LinkId} {linked : SearchTree LinkId}
    (done : w.tables.linkTree.link (w.tables.linkCompare (w.tables.link l).ifindex) l =
      .ok (some linked)) :
    Reaching { w.tables with linkTree := w.tables.balancing.insertColor l linked } w
      (objLinkInsert l w) := by
  refine returns_bind fun link followed => ?_
  obtain ⟨-, rfl⟩ := link_ok followed
  have inserted : w.linkTree.link (fun this =>
      do return (w.links.cell l).ifindex - (← w.link this).ifindex) l = .ok (some linked) := by
    rw [link_difference]
    exact done
  rw [inserted]
  exact reaching_ok rfl rfl

/-- The end of `obj_link_reap`, where the link has no neighbour any more. -/
def objLinkForget (l : LinkId) (w : World) : Except Fault World := do
  let link ← w.link l
  let w := { w with linkTree := w.balancing.erase l w.linkTree }
  let obj ← objFree link.obj
  let w := w.setLink l fun link => { link with obj }
  return { w with linkCnt := ← countDown w.linkCnt }

theorem objLinkForget_reaching (l : LinkId) (w : World) :
    Reaching (w.tables.freeLink l) w (objLinkForget l w) := by
  refine returns_bind fun link followed => returns_bind fun obj freed =>
    returns_bind fun cnt counted => ?_
  obtain ⟨-, rfl⟩ := link_ok followed
  obtain ⟨rfl, state, refcnt, -⟩ := objFree_ok freed
  obtain ⟨rfl, -⟩ := countDown_ok counted
  have entry : ({ w.links.cell l with
      obj := { (w.links.cell l).obj with kind := .unknown } } : ObjLink).entry =
      { w.tables.link l with obj := { kind := .unknown, state := .zombie } } := by
    simp only [ObjLink.entry, state, refcnt]
    rfl
  have written := (tables_setLink w l fun link =>
    { link with obj := { (w.links.cell l).obj with kind := .unknown } }).trans (congrArg _ entry)
  refine reaching_ok ?_ rfl
  rw [Tables.freeLink, ← written]
  rfl

/-- A link is reaped with its neighbours. -/
theorem objLinkReap_reaching (moving : d.Moving) {l : LinkId}
    (nodup : (w.tables.link l).fdb.toList.Nodup)
    (free : ∀ n ∈ (w.tables.link l).fdb.toList, (w.tables.neigh n).obj.refcnt = 0) :
    Reaching ((w.tables.emptyLink l).freeLink l) w (objLinkReap d l w) := by
  refine returns_bind fun link followed => returns_require fun _ => ?_
  obtain ⟨-, rfl⟩ := link_ok followed
  let zombie := w.setLink l fun link =>
    { link with obj := { link.obj with state := .zombie }, ifname := none }
  have tables : zombie.tables = w.tables.setLink l { w.tables.link l with
      obj := { (w.tables.link l).obj with state := .zombie }, ifname := none } :=
    tables_setLink w l _
  refine Reaching.after (u := zombie) rfl (Reaching.bind (t := w.tables.emptyLink l) ?_
    fun w₁ emptied => ?_)
  · rw [Tables.emptyLink, ← tables]
    let invariant (passed : List NeighId) (w₁ : World) : Prop :=
      Moves ⟨passed.foldl Tables.reapNeigh zombie.tables, zombie.routing⟩ w₁.index
    change Returns (invariant (w.tables.link l).fdb.toList) _
    refine ends_foldlM_prefix _ _ (Moves.refl _) fun passed n rest split w₁ moves => ?_
    have tables₁ : w₁.tables = passed.foldl Tables.reapNeigh zombie.tables := moves.1
    have inside : n ∈ (w.tables.link l).fdb.toList := by
      rw [show (w.tables.link l).fdb.toList = passed ++ n :: rest from split]
      simp
    have new : n ∉ passed := by
      rw [show (w.tables.link l).fdb.toList = passed ++ n :: rest from split] at nodup
      exact fun old => (List.nodup_append.mp nodup).2.2 n old n List.mem_cons_self rfl
    have unreferenced : (w₁.tables.neigh n).obj.refcnt = 0 := by
      rw [tables₁, Tables.neigh_reapNeighs_ne new]
      exact free n inside
    refine (objNeighLinkGone_reaching moving unreferenced).mono fun w₂ more => ?_
    refine ⟨more.1.trans ?_, moves.2.trans more.2⟩
    rw [List.foldl_append, tables₁]
    rfl
  · exact (objLinkForget_reaching l w₁).congr (by rw [emptied])

/-- Deleting a link that nothing refers to. -/
theorem objLinkDelete_reaching (moving : d.Moving) {l : LinkId}
    (unheld : (w.tables.link l).obj.refcnt = 0) (nodup : (w.tables.link l).fdb.toList.Nodup)
    (free : ∀ n ∈ (w.tables.link l).fdb.toList, (w.tables.neigh n).obj.refcnt = 0) :
    Reaching ((w.tables.emptyLink l).freeLink l) w (objLinkDelete d l w) := by
  refine returns_bind fun link followed => ?_
  obtain ⟨-, rfl⟩ := link_ok followed
  let present := w.setLink l fun link =>
    { link with obj := { (w.links.cell l).obj with state := .present } }
  have tables : present.tables = w.tables.setLink l { w.tables.link l with
      obj := { (w.tables.link l).obj with state := .present } } := tables_setLink w l _
  have link : present.tables.link l = _ :=
    (congrArg (Tables.link · l) tables).trans (w.tables.link_setLink_same l _)
  have neigh : present.tables.neigh = w.tables.neigh := by
    rw [tables]
    rfl
  dsimp only
  split
  · refine Reaching.after (u := present) rfl
      ((objLinkReap_reaching moving ?_ ?_).congr ?_)
    · rw [link]
      exact nodup
    · rw [link, neigh]
      exact free
    · rw [Tables.emptyLink, link, tables, Tables.setLink_setLink]
      rfl
  · next kept =>
    exact absurd (objIsReapable_present w.mode (c := { (w.links.cell l).obj with
      state := .present }) rfl unheld) kept

/-- A link that is referred to is kept. -/
theorem objLinkDelete_kept {l : LinkId} (held : (w.tables.link l).obj.refcnt ≠ 0) :
    Reaching (w.tables.setLink l { w.tables.link l with
      obj := { (w.tables.link l).obj with state := .present } }) w (objLinkDelete d l w) := by
  refine returns_bind fun link followed => ?_
  obtain ⟨-, rfl⟩ := link_ok followed
  have held : (w.links.cell l).obj.refcnt ≠ 0 := held
  dsimp only
  rw [if_neg (by cases mode : w.mode <;> simp [World.setLink, objIsReapable, mode, held])]
  exact reaching_ok (tables_setLink w l _) rfl

theorem objLinkUpdate_unmoved (writing : Writing c) (l : LinkId) (w : World) :
    Unmoved w (objLinkUpdate c l w) := by
  refine returns_bind fun link _ => ends_foldlM _ _ rfl fun n _ w₁ same => ?_
  refine returns_bind fun neigh _ => returns_require fun _ => ?_
  exact (objNeighNotifyTargets_unmoved writing n w₁).mono fun _ later => later.trans same

end Links

end Calls

end FlowerRoute
