import FlowerRoute.Model.TcEncode

/-!
# Decoding filters

`tc_decode.c`: how a filter message becomes a rule. A decoder reads absent attributes as NULL
pointers and buffers beyond their end as faults, and stops early where a callback returns
`MNL_CB_ERROR`.
-/

namespace FlowerRoute

open Tlv Outcome

/-- `tc_attr_types`. -/
def tcAttrTypes : TypeMap where
  max := 16
  type
    | 1 => .nulString   -- TCA_KIND
    | 2 => .nested      -- TCA_OPTIONS
    | 3 => .binary      -- TCA_STATS
    | 4 => .binary      -- TCA_XSTATS
    | 7 => .nested      -- TCA_STATS2
    | 11 => .u32        -- TCA_CHAIN
    | 12 => .u8         -- TCA_HW_OFFLOAD
    | _ => .unspec

/-- `tc_flower_attr_types`. -/
def tcFlowerAttrTypes : TypeMap where
  max := 109
  type
    | 3 => .nested      -- TCA_FLOWER_ACT
    | 8 => .u16         -- TCA_FLOWER_KEY_ETH_TYPE
    | 10 => .u32        -- TCA_FLOWER_KEY_IPV4_SRC
    | 11 => .u32        -- TCA_FLOWER_KEY_IPV4_SRC_MASK
    | 12 => .u32        -- TCA_FLOWER_KEY_IPV4_DST
    | 13 => .u32        -- TCA_FLOWER_KEY_IPV4_DST_MASK
    | 16 => .binary     -- TCA_FLOWER_KEY_IPV6_DST
    | 17 => .binary     -- TCA_FLOWER_KEY_IPV6_DST_MASK
    | 22 => .u32        -- TCA_FLOWER_FLAGS
    | 25 => .u16        -- TCA_FLOWER_KEY_VLAN_ETH_TYPE
    | 75 => .u8         -- TCA_FLOWER_KEY_IP_TTL
    | 76 => .u8         -- TCA_FLOWER_KEY_IP_TTL_MASK
    | 86 => .u32        -- TCA_FLOWER_IN_HW_COUNT
    | _ => .unspec

/-- `tc_act_attr_types`. -/
def tcActAttrTypes : TypeMap where
  max := 11
  type
    | 1 => .nulString   -- TCA_ACT_KIND
    | 2 => .nested      -- TCA_ACT_OPTIONS
    | 3 => .u32         -- TCA_ACT_INDEX
    | 4 => .nested      -- TCA_ACT_STATS
    | 9 => .binary      -- TCA_ACT_USED_HW_STATS
    | 10 => .u32        -- TCA_ACT_IN_HW_COUNT
    | _ => .unspec

/-- `tca_gact_attr_types`. -/
def tcaGactAttrTypes : TypeMap where
  max := 4
  type
    | 1 => .binary      -- TCA_GACT_TM
    | 2 => .binary      -- TCA_GACT_PARMS
    | 3 => .binary      -- TCA_GACT_PROB
    | _ => .unspec

/-- `tca_vlan_attr_types`. -/
def tcaVlanAttrTypes : TypeMap where
  max := 8
  type
    | 1 => .binary      -- TCA_VLAN_TM
    | 2 => .binary      -- TCA_VLAN_PARMS
    | 3 => .u16         -- TCA_VLAN_PUSH_VLAN_ID
    | 4 => .u16         -- TCA_VLAN_PUSH_VLAN_PROTOCOL
    | _ => .unspec

/-- `tca_pedit_attr_types`. -/
def tcaPeditAttrTypes : TypeMap where
  max := 6
  type
    | 1 => .binary      -- TCA_PEDIT_TM
    | 4 => .binary      -- TCA_PEDIT_PARMS_EX
    | 5 => .binary      -- TCA_PEDIT_KEYS_EX
    | _ => .unspec

/-- `tca_pedit_key_ex_attr_types`. -/
def tcaPeditKeyExAttrTypes : TypeMap where
  max := 2
  type
    | 1 => .u16         -- TCA_PEDIT_KEY_EX_HTYPE
    | 2 => .u16         -- TCA_PEDIT_KEY_EX_CMD
    | _ => .unspec

/-- `tca_mirred_attr_types`. -/
def tcaMirredAttrTypes : TypeMap where
  max := 4
  type
    | 1 => .binary      -- TCA_MIRRED_TM
    | 2 => .binary      -- TCA_MIRRED_PARMS
    | _ => .unspec

/-- `AN(tb[...])` followed by `mnl_attr_get_payload`. -/
def presentAttr (attr : Option Bytes) : Except Stop Bytes :=
  match attr with
  | none => .error (.fault .assertion)
  | some payload => .ok payload

/-- `decode_nlattr_tc_act_attr_cb`; its debug output reads the type map at any type. -/
def decodeNlattrTcActAttrCb (tb : AttrTable) (attr : Attr) : Except Stop AttrTable := do
  require (Stop.fault .outOfBounds) (attr.type ≤ tcActAttrTypes.max)
  decodeNlattr tcActAttrTypes tb attr

/-- `decode_nlattr_tc_act_gact_cb`. -/
def decodeNlattrTcActGactCb (attr : Option Bytes) (rule : TcRule) : Except Stop TcRule := do
  let tb ← mnlAttrParseNested attr (decodeNlattr tcaGactAttrTypes) AttrTable.empty
  let p ← presentAttr (tb 2)
  let action := UInt32.ofNat (← readAt p 8 4)
  if action &&& ~~~0x0FFFFFFF = tcActGotoChain then
    return { rule.addTraits haveGoto with gotoTarget := action &&& 0x0FFFFFFF }
  else if action = tcActTrap then return rule.addTraits haveTrap
  else return rule

/-- `decode_nlattr_tc_act_vlan_cb`. -/
def decodeNlattrTcActVlanCb (attr : Option Bytes) (rule : TcRule) : Except Stop TcRule := do
  let tb ← mnlAttrParseNested attr (decodeNlattr tcaVlanAttrTypes) AttrTable.empty
  let p ← presentAttr (tb 2)
  let vAction ← readAt p 20 4
  let rule ← if vAction ≠ 3 then decoding (tcRuleMarkAlien rule) else pure rule
  let vlanId ← if (tb 3).isSome then mnlAttrGetU16 (tb 3) else pure 0
  if 0 < vlanId then return { rule.addTraits haveVlanMod with vlanId }
  else return rule

/-- `struct m_pedit_key_ex`. -/
structure MPeditKeyEx where
  htype : UInt16 := 0
  cmd : UInt16 := 0
  deriving DecidableEq, Repr

/-- One round of the loop of `decode_nlattr_tc_act_pedit_keys_ex`, which fills a buffer of
`nkeys` entries. -/
def decodePeditKeyEx (nkeys : Nat) (keysEx : List MPeditKeyEx) (keyExAttr : Attr) :
    Except Stop (List MPeditKeyEx) := do
  let tb ← mnlAttrParse keyExAttr.payload (decodeNlattr tcaPeditKeyExAttrTypes) AttrTable.empty
  let htype ← mnlAttrGetU16 (tb 1)
  require (Stop.fault .outOfBounds) (keysEx.length < nkeys)
  let cmd ← mnlAttrGetU16 (tb 2)
  return keysEx ++ [⟨htype, cmd⟩]

/-- `decode_nlattr_tc_act_pedit_keys_ex`. -/
def decodeNlattrTcActPeditKeysEx (attr : Bytes) (nkeys : Nat) : Except Stop (List MPeditKeyEx) :=
  mnlAttrParse attr (decodePeditKeyEx nkeys) []

/-- A write to `lladdr.raw[i]`. -/
def TcRule.setLladdrRaw (r : TcRule) (i : Nat) (word : UInt32) : TcRule :=
  let bytes := r.lladdrBytes.take (4 * i) ++ (le 4 word.toNat ++ r.lladdrBytes.drop (4 * i + 4))
  { r with
    dst := BitVec.ofNat 48 (beNat (bytes.take 6))
    src := BitVec.ofNat 48 (beNat (bytes.drop 6)) }

/-- `sel->keys[i]`. -/
def peditKeyAt (sel : Bytes) (i : Nat) : Except Stop PeditKey := do
  let mask ← readAt sel (24 + 24 * i) 4
  let val ← readAt sel (24 + 24 * i + 4) 4
  let off ← readAt sel (24 + 24 * i + 8) 4
  return ⟨UInt32.ofNat mask, UInt32.ofNat val, UInt32.ofNat off⟩

/-- One round of the loop of `decode_nlattr_tc_act_pedit_cb`, which looks at the key only to set
a word of the addresses; without a value the key is not understood and the loop is left for
`mark_alien`. -/
def decodePeditKey (sel : Bytes) (i : Nat) (keyEx : MPeditKeyEx) (rule : TcRule) :
    Except Stop (Option TcRule) :=
  if keyEx.htype = 1 then
    if keyEx.cmd ≠ 0 then .ok none
    else do
      let key ← peditKeyAt sel i
      if key.off % 4 ≠ 0 ∨ 8 < key.off then return none
      else
        let raw := (key.off >>> 2).toNat
        let word := (rule.lladdrRaw raw &&& key.mask) ^^^ key.val
        return some ((rule.setLladdrRaw raw word).addTraits haveLladdr)
  else if keyEx.htype = 2 ∨ keyEx.htype = 3 then
    if keyEx.cmd ≠ 1 then .ok none
    else .ok (some (rule.addTraits haveTtlDec))
  else .ok none

/-- The loop of `decode_nlattr_tc_act_pedit_cb` over the keys from `i` on. -/
def decodePeditKeys (sel : Bytes) (keysEx : List MPeditKeyEx) :
    Nat → Nat → TcRule → Except Stop TcRule
  | 0, _, rule => .ok rule
  | count + 1, i, rule => do
    match ← decodePeditKey sel i (keysEx.getD i {}) rule with
    | some rule => decodePeditKeys sel keysEx count (i + 1) rule
    | none => decoding (tcRuleMarkAlien rule)

/-- `decode_nlattr_tc_act_pedit_cb`. -/
def decodeNlattrTcActPeditCb (attr : Option Bytes) (rule : TcRule) : Except Stop TcRule := do
  let tb ← mnlAttrParseNested attr (decodeNlattr tcaPeditAttrTypes) AttrTable.empty
  let sel ← presentAttr (tb 4)
  let keysAttr ← presentAttr (tb 5)
  let nkeys ← readAt sel 20 1
  let keysEx ← decodeNlattrTcActPeditKeysEx keysAttr nkeys
  if nkeys = 0 then decoding (tcRuleMarkAlien rule)
  else decodePeditKeys sel keysEx nkeys 0 rule

/-- `decode_nlattr_tc_act_mirred_cb`. -/
def decodeNlattrTcActMirredCb (attr : Option Bytes) (rule : TcRule) : Except Stop TcRule := do
  let tb ← mnlAttrParseNested attr (decodeNlattr tcaMirredAttrTypes) AttrTable.empty
  let p ← presentAttr (tb 2)
  let eaction ← readAt p 20 4
  if eaction ≠ 1 then decoding (tcRuleMarkAlien rule) else return rule

/-- `decode_nlattr_tc_act_csum_cb`. -/
def decodeNlattrTcActCsumCb (_ : Option Bytes) (rule : TcRule) : Except Stop TcRule := .ok rule

/-- `tc_act_helpers`. -/
def tcActHelpers : List (String × (Option Bytes → TcRule → Except Stop TcRule)) := [
  ("gact", decodeNlattrTcActGactCb),
  ("vlan", decodeNlattrTcActVlanCb),
  ("pedit", decodeNlattrTcActPeditCb),
  ("mirred", decodeNlattrTcActMirredCb),
  ("csum", decodeNlattrTcActCsumCb)]

/-- `decode_nlattr_tc_act_cb`. -/
def decodeNlattrTcActCb (rule : TcRule) (attr : Attr) : Except Stop TcRule := do
  let tb ← mnlAttrParse attr.payload decodeNlattrTcActAttrCb AttrTable.empty
  match tb 1 with
  | none => decoding (tcRuleMarkAlien rule)
  | some kind =>
    match tcActHelpers.find? fun helper => mnlAttrGetStr kind = ascii helper.1 with
    | some helper => helper.2 (tb 2) rule
    | none => return rule

/-- The loop of `count_ones`, with the bits counted so far; without a value the mask is not
understood. -/
def countOnesLoop : Bytes → UInt8 → Option UInt8
  | [], ret => some ret
  | octet :: rest, ret =>
    if octet = 0xff then countOnesLoop rest (ret + 8)
    else if octet = 0xfe then some (ret + 7)
    else if octet = 0xfc then some (ret + 6)
    else if octet = 0xf8 then some (ret + 5)
    else if octet = 0xf0 then some (ret + 4)
    else if octet = 0xe0 then some (ret + 3)
    else if octet = 0xc0 then some (ret + 2)
    else if octet = 0x80 then some (ret + 1)
    else if octet = 0x00 then some ret
    else none

/-- `count_ones`, with the rule that it may mark. -/
def countOnes (attr : Option Bytes) (rule : TcRule) : Except Stop (UInt8 × TcRule) :=
  match attr.bind fun data => countOnesLoop data 0 with
  | some ret => .ok (ret, rule)
  | none => do return (0, ← decoding (tcRuleMarkAlien rule))

/-- A `union some_in_addr` read from a payload, as far as the family uses it. -/
def addrAt (payload : Bytes) (width : Nat) : Except Stop SomeInAddr := do
  require (Stop.fault .outOfBounds) (width ≤ payload.length)
  return BitVec.ofNat 128 (beNat (payload.take width ++ List.replicate (16 - width) 0))

/-- The part of `decode_flower` for the address of one family: its attributes and its size. -/
def decodeFlowerAddr (dst mask : Option Bytes) (af : UInt8) (width : Nat) (rule : TcRule) :
    Except Stop TcRule := do
  let rule := { rule with afAddr := { rule.afAddr with af } }.addTraits haveAf
  match dst with
  | none => return rule
  | some dst =>
    let (maskLen, rule) ← countOnes mask rule
    let addr ← addrAt dst width
    let afAddr ← decoding (buildAfAddr af (some addr) maskLen)
    return { rule with afAddr }.addTraits haveIp

/-- The part of `decode_flower` after the actions. -/
def decodeFlowerMatch (tb : AttrTable) (rule : TcRule) : Except Stop TcRule := do
  let rule ← match tb 22 with
    | some flags => do pure { rule with flowerFlags := ← mnlAttrGetU32 flags }
    | none => pure rule
  let rule ← match tb 75 with
    | some ttl => do
      if (← readAt ttl 0 1) = 1 then pure (rule.addTraits haveTtlCheck)
      else decoding (tcRuleMarkAlien rule)
    | none => pure rule
  let vlanEthertype ← if (tb 25).isSome then htons <$> mnlAttrGetU16 (tb 25) else pure 0
  let ethertype ← if (tb 8).isSome then htons <$> mnlAttrGetU16 (tb 8) else pure 0
  if 0 < vlanEthertype ∧ vlanEthertype = ethertype then
    if vlanEthertype = ethPIp then decodeFlowerAddr (tb 12) (tb 13) afInet 4 rule
    else if vlanEthertype = ethPIpv6 then decodeFlowerAddr (tb 16) (tb 17) afInet6 16 rule
    else decoding (tcRuleMarkAlien rule)
  else decoding (tcRuleMarkAlien rule)

/-- `decode_flower`. -/
def decodeFlower (attr : Bytes) (rule : TcRule) : Except Stop TcRule := do
  let tb ← mnlAttrParse attr (decodeNlattr tcFlowerAttrTypes) AttrTable.empty
  let rule ← if (tb 3).isSome then mnlAttrParseNested (tb 3) decodeNlattrTcActCb rule
    else decoding (tcRuleMarkAlien rule)
  decodeFlowerMatch tb rule

/-- `struct tc_decoded_rule`. -/
structure TcDecodedRule where
  isDone : Bool := false
  chainNo : UInt32 := 0
  prio : UInt16 := 0
  tcr : TcRule := {}
  deriving DecidableEq, Repr

/-- `try_decode_filter`. -/
def tryDecodeFilter (nlh : Nlmsg) : Except Stop TcDecodedRule := do
  if nlh.tcm.handle = 0 then return {}
  require (Stop.fault .assertion) (nlh.tcm.handle = 1)
  let tb ← mnlAttrParse nlh.attrs (decodeNlattr tcAttrTypes) AttrTable.empty
  let tcr ← match tb 1, tb 2 with
    | some kind, some options =>
      if mnlAttrGetStr kind = ascii "flower" then decodeFlower options {}
      else if nlh.type = rtmNewtfilter then decoding (tcRuleMarkAlien {})
      else pure {}
    | _, _ => if nlh.type = rtmNewtfilter then decoding (tcRuleMarkAlien {}) else pure {}
  let chainNo ← match tb 11 with
    | some chain => mnlAttrGetU32 chain
    | none => pure 0
  let prio := (tcHMaj nlh.tcm.info >>> 16).toUInt16
  let tcr ← if nlh.type = rtmNewtfilter then
      let (tcr, type) := tcRuleDetect tcr
      decoding (tcRuleSetType tcr type)
    else pure tcr
  return { isDone := true, chainNo, prio, tcr }

/-- `decode_filter2`; without a value the message was not decoded. -/
def decodeFilter2 (nlh : Nlmsg) : Except Fault (Option TcDecodedRule) :=
  match tryDecodeFilter nlh with
  | .ok tdr => .ok (some tdr)
  | .error .callbackError => .ok none
  | .error (.fault fault) => .error fault

end FlowerRoute
