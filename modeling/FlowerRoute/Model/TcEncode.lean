import FlowerRoute.Model.Netlink
import FlowerRoute.Model.TcRule

/-!
# Encoding rules

`tc_encode.c`: the messages that install and drop a rule. The functions of the source append
to a message; here each returns the attributes that it appends.
-/

namespace FlowerRoute

open Tlv Outcome

/-- `ETH_P_IP`. -/
def ethPIp : UInt16 := 0x0800

/-- `ETH_P_IPV6`. -/
def ethPIpv6 : UInt16 := 0x86DD

/-- `ETH_P_8021Q`. -/
def ethP8021q : UInt16 := 0x8100

/-- `TC_ACT_PIPE`. -/
def tcActPipe : UInt32 := 3

/-- `TC_ACT_STOLEN`. -/
def tcActStolen : UInt32 := 4

/-- `TC_ACT_TRAP`. -/
def tcActTrap : UInt32 := 8

/-- `TC_ACT_GOTO_CHAIN`. -/
def tcActGotoChain : UInt32 := 0x20000000

/-- `TCA_CLS_FLAGS_IN_HW`. -/
def tcaClsFlagsInHw : UInt32 := 4

/-- `NLM_F_REQUEST | NLM_F_ACK`. -/
def nlmFRequestAck : UInt16 := 5

/-- `NLM_F_EXCL | NLM_F_CREATE`. -/
def nlmFExclCreate : UInt16 := 0x600

/-- `struct sin_addr.s_addr`: the first four bytes of the address as a word in memory. -/
def sAddr (addr : SomeInAddr) : UInt32 := UInt32.ofNat (leNat ((be 16 addr.toNat).take 4))

/-- The 12 bytes of the union `lladdr`: `dst`, then `src`. -/
def TcRule.lladdrBytes (r : TcRule) : Bytes := be 6 r.dst.toNat ++ be 6 r.src.toNat

/-- `lladdr.raw[i]`. -/
def TcRule.lladdrRaw (r : TcRule) (i : Nat) : UInt32 :=
  UInt32.ofNat (leNat ((r.lladdrBytes.drop (4 * i)).take 4))

/-- The fields of `tc_gen` with an action. -/
def tcGen (action : UInt32) : Bytes :=
  le 4 0 ++ (le 4 0 ++ (le 4 action.toNat ++ (le 4 0 ++ le 4 0)))

/-- `tce_set_tcm`. -/
def tceSetTcm (ifidx info : UInt32) (loopback : Bool) : Tcmsg where
  ifindex := ifidx
  handle := if loopback then 1 else 0
  parent := ingressParent
  info := info

/-- `tce_flower_set_eth_type`. -/
def tceFlowerSetEthType (af : UInt8) (loopback : Bool) : Except Fault (List Attr) := do
  let vlanEthType ←
    if af = afInet then pure ethPIp
    else if af = afInet6 then pure ethPIpv6
    else .error .assertion
  let ethType := if loopback then vlanEthType else ethP8021q
  return [
    mnlAttrPutU16 25 (htons vlanEthType),  -- TCA_FLOWER_KEY_VLAN_ETH_TYPE
    mnlAttrPutU16 8 (htons ethType)]       -- TCA_FLOWER_KEY_ETH_TYPE

/-- `tce_new_flower_rule`: the attributes at the start of the open `TCA_OPTIONS`. -/
def tceNewFlowerRule (tcr : TcRule) (loopback : Bool) : Except Fault (List Attr) := do
  let flowerFlags := if loopback then tcr.flowerFlags else tcr.flowerFlags &&& ~~~tcaClsFlagsInHw
  let ethTypes ← tceFlowerSetEthType tcr.afAddr.af loopback
  return mnlAttrPutU32 22 flowerFlags :: ethTypes  -- TCA_FLOWER_FLAGS

/-- `tce_action_start` and `tce_action_end` around the options of an action. -/
def tceAction (actNo : Nat) (kind : String) (options : List Attr) : Attr :=
  mnlAttrNest actNo [
    mnlAttrPutStrz 1 kind,   -- TCA_ACT_KIND
    mnlAttrNest 2 options]   -- TCA_ACT_OPTIONS

/-- `tce_simple_gact`. -/
def tceSimpleGact (action : UInt32) : Attr :=
  mnlAttrNest 3 [tceAction 1 "gact" [mnlAttrPut 2 (tcGen action)]]  -- TCA_GACT_PARMS

/-- `tce_add_tll_check_rule`. -/
def tceAddTllCheckRule : List Attr := [
  mnlAttrPutU8 75 0x01,  -- TCA_FLOWER_KEY_IP_TTL
  mnlAttrPutU8 76 0xff,  -- TCA_FLOWER_KEY_IP_TTL_MASK
  tceSimpleGact tcActTrap]

/-- The loop of `tce_build_ipv6_mask`, from the last byte to the first. -/
def tceBuildIpv6MaskLoop : Nat → UInt8 → Bytes → Bytes
  | 0, _, built => built
  | i + 1, rem, built =>
    if 8 ≤ rem then tceBuildIpv6MaskLoop i (rem - 8) (0x00 :: built)
    else tceBuildIpv6MaskLoop i 0 (0xff <<< rem :: built)

/-- `tce_build_ipv6_mask`. -/
def tceBuildIpv6Mask (maskLen : UInt8) : Bytes := tceBuildIpv6MaskLoop 16 (128 - maskLen) []

/-- The IPv4 mask of `tce_match_prefix`. -/
def tceIp4Mask (maskLen : UInt8) : UInt32 :=
  if 0 < maskLen then htonl (0xffffffff <<< (32 - maskLen.toUInt32)) else 0

/-- `tce_match_prefix`. -/
def tceMatchPrefix (tcr : TcRule) (loopback : Bool) : List Attr :=
  let pfx := tcr.afAddr
  if pfx.af = afInet then
    if loopback ∧ pfx.maskLen = 0 then []
    else [
      mnlAttrPutU32 12 (sAddr pfx.addr),           -- TCA_FLOWER_KEY_IPV4_DST
      mnlAttrPutU32 13 (tceIp4Mask pfx.maskLen)]   -- TCA_FLOWER_KEY_IPV4_DST_MASK
  else if pfx.af = afInet6 then [
    mnlAttrPut 16 (be 16 pfx.addr.toNat),          -- TCA_FLOWER_KEY_IPV6_DST
    mnlAttrPut 17 (tceBuildIpv6Mask pfx.maskLen)]  -- TCA_FLOWER_KEY_IPV6_DST_MASK
  else []

/-- `tce_add_ip_gact_rule`. -/
def tceAddIpGactRule (tcr : TcRule) (loopback : Bool) (action : UInt32) : List Attr :=
  tceMatchPrefix tcr loopback ++ [tceSimpleGact action]

/-- `tce_modify_vlan_action`. -/
def tceModifyVlanAction (actNo : Nat) (vlanId : UInt16) : Attr :=
  tceAction actNo "vlan" [
    mnlAttrPut 2 (tcGen tcActPipe ++ le 4 3),  -- TCA_VLAN_PARMS, TCA_VLAN_ACT_MODIFY
    mnlAttrPutU16 3 vlanId]                    -- TCA_VLAN_PUSH_VLAN_ID

/-- `struct tc_pedit_key`, as far as it is set. -/
structure PeditKey where
  mask : UInt32
  val : UInt32
  off : UInt32
  deriving DecidableEq, Repr

/-- The 24 bytes of a key. -/
def PeditKey.bytes (key : PeditKey) : Bytes :=
  le 4 key.mask.toNat ++ (le 4 key.val.toNat ++ (le 4 key.off.toNat ++
    (le 4 0 ++ (le 4 0 ++ le 4 0))))

/-- The extended key of `TCA_PEDIT_KEY_EX` with a command and, if given, a header type. -/
def tcePeditKeyEx (cmd : UInt16) (htype : Option UInt16) : Attr :=
  mnlAttrNest 6 (mnlAttrPutU16 2 cmd :: (htype.map (mnlAttrPutU16 1)).toList)

/-- The key of the MAC address word `i`. -/
def tcePeditLladdrKey (tcr : TcRule) (i : Nat) : PeditKey where
  mask := 0x00000000
  val := tcr.lladdrRaw i
  off := UInt32.ofNat i <<< 2

/-- The key that decrements the TTL or the hop limit. -/
def tcePeditTtlKey (af : UInt8) : PeditKey :=
  if af = afInet then ⟨htonl 0x00ffffff, htonl 0xff000000, 8⟩
  else if af = afInet6 then ⟨htonl 0xffffff00, htonl 0x000000ff, 4⟩
  else ⟨0, 0, 0⟩

/-- The header type of the TTL key. -/
def tcePeditTtlHtype (af : UInt8) : Option UInt16 :=
  if af = afInet then some 2 else if af = afInet6 then some 3 else none

/-- `struct tc_pedit_sel` with four keys. -/
def tcePeditSel (tcr : TcRule) : Bytes :=
  tcGen tcActPipe ++ ([4, 0, 0, 0] ++ ((tcePeditLladdrKey tcr 0).bytes ++
    ((tcePeditLladdrKey tcr 1).bytes ++ ((tcePeditLladdrKey tcr 2).bytes ++
      (tcePeditTtlKey tcr.afAddr.af).bytes))))

/-- `tce_pedit_action`. -/
def tcePeditAction (actNo : Nat) (tcr : TcRule) : Attr :=
  tceAction actNo "pedit" [
    mnlAttrNest 5 [                                   -- TCA_PEDIT_KEYS_EX
      tcePeditKeyEx 0 (some 1),                       -- TCA_PEDIT_KEY_EX_CMD_SET on ETH
      tcePeditKeyEx 0 (some 1),
      tcePeditKeyEx 0 (some 1),
      tcePeditKeyEx 1 (tcePeditTtlHtype tcr.afAddr.af)],  -- TCA_PEDIT_KEY_EX_CMD_ADD
    mnlAttrPut 4 (tcePeditSel tcr)]                   -- TCA_PEDIT_PARMS_EX

/-- `tce_redirect_action`. -/
def tceRedirectAction (ifidx : UInt32) (actNo : Nat) : Attr :=
  tceAction actNo "mirred" [
    mnlAttrPut 2 (tcGen tcActStolen ++ (le 4 1 ++ le 4 ifidx.toNat))]  -- TCA_EGRESS_REDIR

/-- `tce_csum_action`. -/
def tceCsumAction (actNo : Nat) : Attr :=
  tceAction actNo "csum" [mnlAttrPut 1 (tcGen tcActPipe ++ le 4 1)]  -- TCA_CSUM_PARMS

/-- `tce_add_ip_forward_rule`. -/
def tceAddIpForwardRule (ifidx : UInt32) (rule : TcRule) : List Attr := [
  mnlAttrNest 3 ([
    tceModifyVlanAction 1 rule.vlanId,
    tcePeditAction 2 rule] ++
    if rule.afAddr.af = afInet then [tceCsumAction 3, tceRedirectAction ifidx 4]
    else [tceRedirectAction ifidx 3])]

/-- The switch of `tc_encode_add_rule` over the type. -/
def tcEncodeRuleBody (ifidx : UInt32) (tcr : TcRule) (loopback : Bool) :
    Except Fault (List Attr) :=
  match tcr.type with
  | .forward => .ok (tceAddIpForwardRule ifidx tcr)
  | .routeTrap => .ok (tceAddIpGactRule tcr loopback tcActTrap)
  | .routeGoto => .ok (tceAddIpGactRule tcr loopback (tcActGotoChain ||| tcr.gotoTarget))
  | .ttlCheck => .ok tceAddTllCheckRule
  | .unspec | .alien | .routeDftGoto => .error .assertion

/-- `tc_encode_add_rule`. -/
def tcEncodeAddRule (ifidx chainNo : UInt32) (prio : UInt16) (tcr : TcRule) (loopback : Bool) :
    Except Fault Nlmsg := do
  let flower ← tceNewFlowerRule tcr loopback
  let body ← tcEncodeRuleBody ifidx tcr loopback
  return {
    type := rtmNewtfilter
    flags := nlmFRequestAck ||| nlmFExclCreate
    tcm := tceSetTcm ifidx (tcHMake (prio.toUInt32 <<< 16) (htons ethP8021q).toUInt32) loopback
    attrs := encodeAll [
      mnlAttrPutU32 11 chainNo,          -- TCA_CHAIN
      mnlAttrPutStrz 1 "flower",         -- TCA_KIND
      mnlAttrNest 2 (flower ++ body)] }  -- TCA_OPTIONS

/-- `tc_encode_drop_rule`. -/
def tcEncodeDropRule (ifidx chainNo : UInt32) (prio : UInt16) (loopback : Bool) : Nlmsg where
  type := rtmDeltfilter
  flags := nlmFRequestAck
  tcm := tceSetTcm ifidx (tcHMake (prio.toUInt32 <<< 16) 0) loopback
  attrs := encodeAll [mnlAttrPutU32 11 chainNo]

/-- `tc_encode_rule`; `loopback` is `TCE_FLAG_LOOPBACK`. -/
def tcEncodeRule (ifidx chainNo : UInt32) (prio : UInt16) (tcr : Option TcRule)
    (loopback : Bool) : Except Fault Nlmsg :=
  match tcr with
  | some tcr => tcEncodeAddRule ifidx chainNo prio tcr loopback
  | none => .ok (tcEncodeDropRule ifidx chainNo prio loopback)

end FlowerRoute
