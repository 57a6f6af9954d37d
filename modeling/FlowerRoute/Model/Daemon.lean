import FlowerRoute.Model.Neigh

/-!
# Messages

`nl_decode.c`: the handlers of the monitor's messages about links, neighbours and routes, from
where their attributes are decoded.
-/

namespace FlowerRoute

open Outcome

/-- `decode_route` for a route with a gateway: its nexthop's neighbour, then its target. -/
def decodeRoute (c : Calls) (d : Unrefs) (nlmsgType : UInt16) (oif : Int) (af : UInt8)
    (nh : Option SomeInAddr) (dst : AfAddr) (w : World) : Except Fault World := do
  let (n, w) ← objNeighNetlinkGet oif af nh w
  match n with
  | none => return w
  | some n =>
    let (t, w) ← objTargetGetUnipath n w
    objRouteNetlinkUpdate c d nlmsgType t dst w

/-- A message of the monitor about links, neighbours or routes. -/
inductive Message
  | link (nlmsgType : UInt16) (m : LinkMsg)
  | neigh (nlmsgType : UInt16) (ifindex : Int) (af : UInt8) (addr : Option SomeInAddr)
    (lladdr : Option Lladdr)
  | route (nlmsgType : UInt16) (oif : Int) (af : UInt8) (nh : Option SomeInAddr) (dst : AfAddr)
  deriving DecidableEq, Repr

/-- The handler of a message, at a bound on the depth of calls. -/
def handle (depth : Nat) (message : Message) (w : World) : Except Fault World :=
  let c := calls depth
  let d := unrefs c depth
  match message with
  | .link nlmsgType m => objLinkNetlinkUpdate c d nlmsgType m w
  | .neigh nlmsgType ifindex af addr lladdr =>
    objNeighNetlinkUpdate c d nlmsgType ifindex af addr lladdr w
  | .route nlmsgType oif af nh dst => decodeRoute c d nlmsgType oif af nh dst w

end FlowerRoute
