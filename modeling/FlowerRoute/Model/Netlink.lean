import FlowerRoute.Lib.Tlv
import FlowerRoute.Lib.Outcome
import FlowerRoute.Model.Address

/-!
# Traffic control messages

`nl_decode_common.c` and what the daemon uses of libmnl: a message with its `struct tcmsg`,
attributes put into it, and attributes validated into a table. Numbers are little-endian, as on
the machines with the offloading NICs; `htons` makes network order of them.
-/

namespace FlowerRoute

open Tlv Outcome

/-- `RTM_NEWTFILTER`. -/
def rtmNewtfilter : UInt16 := 44

/-- `RTM_DELTFILTER`. -/
def rtmDeltfilter : UInt16 := 45

/-- `RTM_NEWCHAIN`. -/
def rtmNewchain : UInt16 := 100

/-- `RTM_DELCHAIN`. -/
def rtmDelchain : UInt16 := 101

/-- `struct tcmsg`. -/
structure Tcmsg where
  family : UInt8 := 0
  ifindex : UInt32
  handle : UInt32
  parent : UInt32
  info : UInt32
  deriving DecidableEq, Repr

/-- `struct nlmsghdr` with a `struct tcmsg` and the attributes after it. -/
structure Nlmsg where
  type : UInt16
  flags : UInt16
  tcm : Tcmsg
  attrs : Bytes
  deriving DecidableEq, Repr

/-- `TC_H_MAJ`. -/
def tcHMaj (h : UInt32) : UInt32 := h &&& 0xFFFF0000

/-- `TC_H_MAKE`. -/
def tcHMake (maj min : UInt32) : UInt32 := (maj &&& 0xFFFF0000) ||| (min &&& 0x0000FFFF)

/-- `TC_H_INGRESS` and `TC_H_CLSACT`. -/
def tcHIngress : UInt32 := 0xFFFFFFF1

/-- `TC_H_MIN_INGRESS`. -/
def tcHMinIngress : UInt32 := 0xFFF2

/-- `TC_H_MAKE(TC_H_CLSACT, TC_H_MIN_INGRESS)`, the parent of every filter of the daemon. -/
def ingressParent : UInt32 := tcHMake tcHIngress tcHMinIngress

/-- `htons` and `ntohs`. -/
def htons (x : UInt16) : UInt16 := UInt16.ofNat (beNat (le 2 x.toNat))

/-- `htonl` and `ntohl`. -/
def htonl (x : UInt32) : UInt32 := UInt32.ofNat (beNat (le 4 x.toNat))

/-- The bytes of an ASCII literal. -/
def ascii (s : String) : Bytes := s.toList.map fun c => UInt8.ofNat c.toNat

section Put

/-- `mnl_attr_put`. -/
def mnlAttrPut (type : Nat) (payload : Bytes) : Attr := ⟨type, payload⟩

/-- `mnl_attr_put_u8`. -/
def mnlAttrPutU8 (type : Nat) (x : UInt8) : Attr := mnlAttrPut type (le 1 x.toNat)

/-- `mnl_attr_put_u16`. -/
def mnlAttrPutU16 (type : Nat) (x : UInt16) : Attr := mnlAttrPut type (le 2 x.toNat)

/-- `mnl_attr_put_u32`. -/
def mnlAttrPutU32 (type : Nat) (x : UInt32) : Attr := mnlAttrPut type (le 4 x.toNat)

/-- `mnl_attr_put_strz`. -/
def mnlAttrPutStrz (type : Nat) (s : String) : Attr := mnlAttrPut type (ascii s ++ [0])

/-- `mnl_attr_nest_start` and `mnl_attr_nest_end` around some attributes; the kind carries
`NLA_F_NESTED`. -/
def mnlAttrNest (type : Nat) (attrs : List Attr) : Attr := ⟨32768 + type, encodeAll attrs⟩

end Put

/-- How decoding stops early. -/
inductive Stop
  /-- The daemon stopped. -/
  | fault (fault : Fault)
  /-- A callback returned `MNL_CB_ERROR`. -/
  | callbackError
  deriving DecidableEq, Repr

/-- The faults of a function called while decoding. -/
def decoding {α : Type} (result : Except Fault α) : Except Stop α := result.mapError .fault

/-- `enum mnl_attr_data_type`, as far as the type maps use it. -/
inductive MnlType
  | unspec
  | u8
  | u16
  | u32
  | nulString
  | nested
  | binary
  deriving DecidableEq, Repr

/-- `mnl_attr_validate`. -/
def mnlAttrValidate (payload : Bytes) : MnlType → Bool
  | .unspec | .binary => true
  | .u8 => payload.length = 1
  | .u16 => payload.length = 2
  | .u32 => payload.length = 4
  | .nulString => payload.getLast? = some 0
  | .nested => payload.length = 0 || 4 ≤ payload.length

/-- A type map: the data type of every attribute type up to a greatest one. -/
structure TypeMap where
  max : Nat
  type : Nat → MnlType

/-- The table `tb` of a decoder: the payloads of the attributes seen, by type. -/
def AttrTable := Nat → Option Bytes

/-- The table `{0}`. -/
def AttrTable.empty : AttrTable := fun _ => none

/-- `tb[type] = attr`. -/
def AttrTable.set (tb : AttrTable) (type : Nat) (payload : Bytes) : AttrTable :=
  fun other => if other = type then some payload else tb other

/-- `decode_nlattr`. -/
def decodeNlattr (map : TypeMap) (tb : AttrTable) (attr : Attr) : Except Stop AttrTable :=
  if map.max < attr.type then .ok tb
  else if map.type attr.type = .unspec then .ok tb
  else if mnlAttrValidate attr.payload (map.type attr.type) then
    .ok (tb.set attr.type attr.payload)
  else .error .callbackError

/-- `mnl_attr_parse` and `mnl_attr_parse_nested` with a callback on a state. -/
def mnlAttrParse {σ : Type} (payload : Bytes) (callback : σ → Attr → Except Stop σ) (state : σ) :
    Except Stop σ := (parse payload).foldlM callback state

/-- `mnl_attr_parse_nested` of an attribute that may be absent. -/
def mnlAttrParseNested {σ : Type} (attr : Option Bytes) (callback : σ → Attr → Except Stop σ)
    (state : σ) : Except Stop σ :=
  match attr with
  | none => .error (.fault .nullPointer)
  | some payload => mnlAttrParse payload callback state

/-- A read of `width` bytes at an offset of a payload. -/
def readAt (payload : Bytes) (offset width : Nat) : Except Stop Nat :=
  if offset + width ≤ payload.length then .ok (leNat ((payload.drop offset).take width))
  else .error (.fault .outOfBounds)

/-- `mnl_attr_get_u16` of an attribute that may be absent. -/
def mnlAttrGetU16 (attr : Option Bytes) : Except Stop UInt16 :=
  match attr with
  | none => .error (.fault .nullPointer)
  | some payload => (UInt16.ofNat ·) <$> readAt payload 0 2

/-- `mnl_attr_get_u32` of an attribute that is present. -/
def mnlAttrGetU32 (payload : Bytes) : Except Stop UInt32 :=
  (UInt32.ofNat ·) <$> readAt payload 0 4

/-- `mnl_attr_get_str`, up to its terminator. -/
def mnlAttrGetStr (payload : Bytes) : Bytes := payload.takeWhile (· ≠ 0)

/-- Attributes that fit are parsed as they were put. -/
theorem mnlAttrParse_encodeAll {σ : Type} {attrs : List Attr} (fits : ∀ a ∈ attrs, a.Fits)
    (callback : σ → Attr → Except Stop σ) (state : σ) :
    mnlAttrParse (encodeAll attrs) callback state = attrs.foldlM callback state := by
  rw [mnlAttrParse, parse_encodeAll fits]

/-- A number within its width is read back as it was written. -/
theorem readAt_le {payload : Bytes} {offset width n : Nat} (before after : Bytes)
    (split : payload = before ++ (le width n ++ after)) (place : before.length = offset)
    (bound : n < 256 ^ width) : readAt payload offset width = .ok n := by
  subst split place
  rw [readAt, if_pos (by simp only [List.length_append, length_le]; omega),
    List.drop_left' rfl, List.take_left' (length_le _ _), leNat_le, Nat.mod_eq_of_lt bound]

end FlowerRoute
