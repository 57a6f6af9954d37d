import FlowerRoute.Model.Onload
import FlowerRoute.Model.Target

/-!
# The requests at the start

`sched_basic_init` asks for the rules that stay: two that sort packets by address family, two that
trap packets with an expiring TTL, and a trap for each prefix of the list "onload" at the next
free priority of its family's chain.
-/

namespace FlowerRoute

open Outcome Tlv

/-- The `struct af_addr` in the bytes of a prefix. -/
def AfAddr.ofBytes (bytes : Bytes) : AfAddr where
  af := bytes.getD 0 0
  maskLen := bytes.getD 1 0
  addr := someInAddr (bytes.drop 4)
  pad := .ofNat (beNat ((bytes.drop 2).take 2))

/-- A structure is read from its bytes as it was written, the padding included. -/
theorem AfAddr.ofBytes_bytes (a : AfAddr) : AfAddr.ofBytes a.bytes = a := by
  obtain ⟨af, maskLen, addr, pad⟩ := a
  have whole : be 16 addr.toNat ++ List.replicate (16 - (be 16 addr.toNat).length) 0 =
      be 16 addr.toNat := by simp
  have low : someInAddr (be 16 addr.toNat) = addr := by
    rw [someInAddr, whole, beNat_be, Nat.mod_eq_of_lt (by exact addr.isLt), BitVec.ofNat_toNat]
    rfl
  have between : beNat (be 2 pad.toNat) = pad.toNat := by
    rw [beNat_be, Nat.mod_eq_of_lt (by exact pad.toNat_lt)]
  have padding : UInt16.ofNat (beNat (be 2 pad.toNat)) = pad := by
    rw [between, UInt16.ofNat_toNat]
  exact congrArg₂ (AfAddr.mk af maskLen) low padding

/-- The address 2000::, as `inet_pton` reads it. -/
def unicast6 : SomeInAddr := 0x2000#128 <<< 112

section Initial

variable (c : Calls)

/-- `request_af_goto_rule`. -/
def requestAfGotoRule (chainNo : UInt32) (prio : UInt16) (af : UInt8) (gotoTarget : UInt32)
    (w : World) : Except Fault World := do
  -- `tc_rule_set_dst` with 2000::/3, as ::/0 can't be matched on
  let afAddr : AfAddr := if af = afInet6 then ⟨afInet6, 3, unicast6, 0⟩ else ⟨af, 0, 0, 0⟩
  let tcr ← tcRuleSetTypeAndTraits
    { flowerFlags := w.config.flowerFlags, afAddr, gotoTarget } .routeGoto
  objRuleStaticWant c chainNo prio tcr w

/-- `request_ttl_check`. -/
def requestTtlCheck (chainNo : UInt32) (prio : UInt16) (af : UInt8) (w : World) :
    Except Fault World := do
  let tcr ← tcRuleSetTypeAndTraits
    { flowerFlags := w.config.flowerFlags, afAddr := ⟨af, 0, 0, 0⟩ } .ttlCheck
  objRuleStaticWant c chainNo prio tcr w

/-- `request_onload_rule`. -/
def requestOnloadRule (chainNo : UInt32) (prio : UInt16) (afAddr : AfAddr) (w : World) :
    Except Fault World := do
  let tcr ← tcRuleSetTypeAndTraits { flowerFlags := w.config.flowerFlags, afAddr } .routeTrap
  objRuleStaticWant c chainNo prio tcr w

/-- The loop of `sched_basic_place_prefix_list` from an entry on. -/
def placePrefixListLoop (config : PrefixConfig) (basePrio : UInt16) :
    Nat → Option PrefixEntryId → World → Except Fault World
  | _, none, w => .ok w
  | 0, some _, _ => .error .outOfFuel
  | fuel + 1, some pfx, w => do
    let afAddr := AfAddr.ofBytes (config.entries.cell pfx).addr
    let chainNo ← getAfChain afAddr.af
    let prio ← objRuleFindAvailablePrio chainNo basePrio w
    let w ← requestOnloadRule c chainNo prio afAddr w
    placePrefixListLoop config basePrio fuel (config.entries.cell pfx).next w

/-- `sched_basic_place_prefix_list`. -/
def schedBasicPlacePrefixList (config : PrefixConfig) (basePrio : UInt16) (listName : List Char)
    (w : World) : Except Fault World := do
  let (list, _) ← lookupPrefixList listName config
  match list with
  | none => return w
  | some list =>
    placePrefixListLoop c config basePrio config.entries.next (config.lists.cell list).head w

/-- `sched_basic_initial_requests`. -/
def schedBasicInitialRequests (config : PrefixConfig) (w : World) : Except Fault World := do
  let w ← requestAfGotoRule c 0 1 afInet 1 w
  let w ← requestAfGotoRule c 0 2 afInet6 2 w
  let w ← requestTtlCheck c 1 1 afInet w
  let w ← requestTtlCheck c 2 1 afInet6 w
  schedBasicPlacePrefixList c config 10 "onload".toList w

end Initial

end FlowerRoute
