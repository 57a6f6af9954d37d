import FlowerRoute.Model.Target

/-!
# Neighbours and links

`obj_neigh.c` and `obj_link.c`.
-/

namespace FlowerRoute

open Outcome

/-- `RTM_NEWLINK`. -/
def rtmNewlink : UInt16 := 16
/-- `RTM_DELLINK`. -/
def rtmDellink : UInt16 := 17
/-- `RTM_NEWNEIGH`. -/
def rtmNewneigh : UInt16 := 28
/-- `RTM_DELNEIGH`. -/
def rtmDelneigh : UInt16 := 29

section References

/-- `obj_link_ref`. -/
def objLinkRef (l : LinkId) (w : World) : Except Fault World := do
  let _ ← w.link l
  return w.setLink l fun link => { link with obj := objRef link.obj }

/-- `obj_link_weak_ref`. -/
def objLinkWeakRef (l : LinkId) (w : World) : Except Fault World := do
  let _ ← w.link l
  return w.setLink l fun link => { link with obj := objWeakRef link.obj }

/-- `obj_link_weak_unref`. -/
def objLinkWeakUnref (l : LinkId) (w : World) : Except Fault World := do
  let link ← w.link l
  let obj ← objWeakUnref link.obj
  return w.setLink l fun link => { link with obj }

/-- `obj_neigh_ref`. -/
def objNeighRef (n : NeighId) (w : World) : Except Fault World := do
  let _ ← w.neigh n
  return w.setNeigh n fun neigh => { neigh with obj := objRef neigh.obj }

end References

section Lookup

/-- `obj_link_lookup`. -/
def objLinkLookup (ifindex : Int) (w : World) : Except Fault (Option LinkId) :=
  w.linkTree.find fun this => return ifindex - (← w.link this).ifindex

/-- `obj_link_insert`. -/
def objLinkInsert (l : LinkId) (w : World) : Except Fault World := do
  let link ← w.link l
  match ← w.linkTree.link (fun this => return link.ifindex - (← w.link this).ifindex) l with
  | none => return w
  | some linked => return { w with linkTree := w.balancing.insertColor l linked }

/-- `obj_neigh_fdb_lookup`. -/
def objNeighFdbLookup (l : LinkId) (addr : AfAddr) (w : World) :
    Except Fault (Option NeighId) := do
  let link ← w.link l
  link.fdb.find fun this => return addr.memcmp (← w.neigh this).addr

/-- `obj_neigh_fdb_insert`. -/
def objNeighFdbInsert (n : NeighId) (w : World) : Except Fault World := do
  let neigh ← w.neigh n
  match neigh.link with
  | none => .error .nullPointer
  | some l =>
    let link ← w.link l
    match ← link.fdb.link (fun this => return neigh.addr.memcmp (← w.neigh this).addr) n with
    | none => return w
    | some linked => return w.setLink l fun link =>
        { link with fdb := w.balancing.insertColor n linked }

end Lookup

section Neighbours

variable (c : Calls) (d : Unrefs)

/-- `obj_neigh_unlink`. -/
def objNeighUnlink (n : NeighId) (l : LinkId) (w : World) : Except Fault World := do
  let _ ← w.link l
  let w := w.setLink l fun link => { link with fdb := w.balancing.erase n link.fdb }
  let w ← objLinkWeakUnref l w
  return w.setNeigh n fun neigh => { neigh with link := none }

/-- `obj_neigh_reap`. -/
def objNeighReap (n : NeighId) (w : World) : Except Fault World := do
  let neigh ← w.neigh n
  require Fault.assertion (neigh.obj.refcnt = 0)
  let w := w.setNeigh n fun neigh => { neigh with obj := { neigh.obj with state := .zombie } }
  let w ← neigh.targets.foldlM (fun w t => d.objTargetUnref t w) w
  let neigh ← w.neigh n
  let w ← match neigh.link with
    | none => pure w
    | some l => objNeighUnlink n l w
  let neigh ← w.neigh n
  let obj ← objFree neigh.obj
  let w := w.setNeigh n fun neigh => { neigh with obj }
  return { w with neighCnt := ← countDown w.neighCnt }

/-- `obj_neigh_unref`. -/
def objNeighUnref (n : NeighId) (w : World) : Except Fault World := do
  let neigh ← w.neigh n
  let obj ← objUnref neigh.obj
  let w := w.setNeigh n fun neigh => { neigh with obj }
  if objIsReapable w.mode obj then objNeighReap d n w else return w

/-- `lladdr_set`: a NULL pointer clears the address. -/
def lladdrSet (src : Option Lladdr) : Lladdr := src.getD 0

/-- `obj_neigh_notify_targets`. -/
def objNeighNotifyTargets (n : NeighId) (w : World) : Except Fault World := do
  let neigh ← w.neigh n
  neigh.targets.foldlM (fun w t => objTargetNeighUpdate c t w) w

/-- `obj_neigh_new`. -/
def objNeighNew (n : NeighId) (w : World) : Except Fault World := do
  let w ← objNeighRef n w
  let w := w.setNeigh n fun neigh => { neigh with obj := { neigh.obj with state := .installed } }
  let w ← objNeighFdbInsert n w
  objNeighUnref d n w

/-- `obj_neigh_update`. -/
def objNeighUpdate (n : NeighId) (w : World) : Except Fault World := do
  let w ← objNeighRef n w
  let w := w.setNeigh n fun neigh => { neigh with obj := { neigh.obj with state := .installed } }
  let w ← objNeighNotifyTargets c n w
  objNeighUnref d n w

/-- `obj_neigh_delete`. -/
def objNeighDelete (n : NeighId) (w : World) : Except Fault World := do
  let neigh ← w.neigh n
  let obj := { neigh.obj with state := .present }
  let w := w.setNeigh n fun neigh => { neigh with obj }
  if objIsReapable w.mode obj then objNeighReap d n w else return w

/-- `obj_neigh_link_gone`. -/
def objNeighLinkGone (n : NeighId) (w : World) : Except Fault World := do
  let neigh ← w.neigh n
  match neigh.link with
  | none => .error .assertion
  | some l =>
    let w ← objNeighUnlink n l w
    objNeighDelete d n w

/-- `obj_neigh_alloc` with the fields that its callers set on the new neighbour. -/
def objNeighAlloc (neigh : ObjNeigh) (w : World) : NeighId × World :=
  (w.neighs.next, { w with
    neighs := w.neighs.alloc { neigh with obj := { kind := .neigh } }
    neighCnt := w.neighCnt + 1 })

/-- `obj_neigh_netlink_update`. -/
def objNeighNetlinkUpdate (nlmsgType : UInt16) (ifindex : Int) (af : UInt8)
    (addr : Option SomeInAddr) (lladdr : Option Lladdr) (w : World) : Except Fault World := do
  match ← objLinkLookup ifindex w with
  | none => return w
  | some l =>
    let afAddr ← buildAfAddr af addr 0
    match ← objNeighFdbLookup l afAddr w with
    | none =>
      if nlmsgType = rtmDelneigh then return w
      let (n, w) := objNeighAlloc { addr := afAddr, link := some l, lladdr := lladdrSet lladdr } w
      let w ← objLinkWeakRef l w
      objNeighNew d n w
    | some n =>
      if nlmsgType = rtmDelneigh then objNeighDelete d n w
      else
        let neigh ← w.neigh n
        if neigh.lladdr = lladdrSet lladdr then return w
        objNeighUpdate c d n (w.setNeigh n fun neigh =>
          { neigh with lladdr := lladdrSet lladdr })

/-- `obj_neigh_netlink_get`. -/
def objNeighNetlinkGet (ifindex : Int) (af : UInt8) (addr : Option SomeInAddr) (w : World) :
    Except Fault (Option NeighId × World) := do
  match ← objLinkLookup ifindex w with
  | none => return (none, w)
  | some l =>
    let afAddr ← buildAfAddr af addr 0
    match ← objNeighFdbLookup l afAddr w with
    | some n => return (some n, w)
    | none =>
      let (n, w) := objNeighAlloc { addr := afAddr, link := some l } w
      return (some n, ← objLinkRef l w)

end Neighbours

section Links

variable (c : Calls) (d : Unrefs)

/-- `obj_link_reap`. -/
def objLinkReap (l : LinkId) (w : World) : Except Fault World := do
  let link ← w.link l
  require Fault.assertion (link.obj.refcnt = 0)
  let w := w.setLink l fun link =>
    { link with obj := { link.obj with state := .zombie }, ifname := none }
  let w ← link.fdb.toList.foldlM (fun w n => objNeighLinkGone d n w) w
  let link ← w.link l
  let w := { w with linkTree := w.balancing.erase l w.linkTree }
  let obj ← objFree link.obj
  let w := w.setLink l fun link => { link with obj }
  return { w with linkCnt := ← countDown w.linkCnt }

/-- One round of the loop of `obj_link_update`. -/
def objLinkUpdateNeigh (l : LinkId) (w : World) (n : NeighId) : Except Fault World := do
  let neigh ← w.neigh n
  require Fault.assertion (neigh.link = some l)
  objNeighNotifyTargets c n w

/-- `obj_link_update`. -/
def objLinkUpdate (l : LinkId) (w : World) : Except Fault World := do
  let link ← w.link l
  link.fdb.toList.foldlM (objLinkUpdateNeigh c l) w

/-- `obj_link_delete`. -/
def objLinkDelete (l : LinkId) (w : World) : Except Fault World := do
  let link ← w.link l
  let obj := { link.obj with state := .present }
  let w := w.setLink l fun link => { link with obj }
  if objIsReapable w.mode obj then objLinkReap d l w else return w

/-- The fields of a link that a message carries. -/
structure LinkMsg where
  ifindex : Int
  lladdr : Option Lladdr
  lowerIfindex : Int
  vlanId : UInt16
  mtu : UInt32
  ifname : Option String
  deriving DecidableEq, Repr

/-- The fields of a message, written into a link. -/
def ObjLink.set (m : LinkMsg) (link : ObjLink) : ObjLink :=
  { link with
    lladdr := lladdrSet m.lladdr
    ifname := m.ifname
    lowerIfindex := m.lowerIfindex
    mtu := m.mtu
    vlanId := m.vlanId }

/-- `obj_link_netlink_update`. -/
def objLinkNetlinkUpdate (nlmsgType : UInt16) (m : LinkMsg) (w : World) : Except Fault World := do
  match ← objLinkLookup m.ifindex w with
  | none =>
    if nlmsgType = rtmDellink then return w
    let l := w.links.next
    let w := { w with
      links := w.links.alloc (ObjLink.set m {
        ifindex := m.ifindex, obj := { kind := .link, state := .installed } })
      linkCnt := w.linkCnt + 1 }
    objLinkInsert l w
  | some l =>
    if nlmsgType = rtmDellink then objLinkDelete d l w
    else
      let link ← w.link l
      require Fault.assertion (link.ifindex = m.ifindex)
      if link = link.set m then return w
      objLinkUpdate c l (w.setLink l (ObjLink.set m))

end Links

end FlowerRoute
